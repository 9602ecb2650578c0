import AffineKernel.Proofs.Semantics.Control

/-!
# The meaning of reductions

A reduction over axes with literal bounds starts at the identity of its kind and
combines the value of its body at every point of the product of the ranges with
what was accumulated (`Meaning.reduce`). This is how a nest of loops computes
it. For integers and fixed point numbers of at most 64 bits the result is what
the kind says (`ReduceKind.Law`): a sum is the number of the type that is
congruent to the sum of the values, and a minimum or maximum is the least or
greatest value, or the end of the range of the type if there is no point
(`Meaning.reduce_law`).

Minima and maxima of truth values are left out: their operations read the one
bit with a sign.
-/

set_option autoImplicit false

namespace AffineKernel

/-- An axis with literal bounds. -/
structure AxisRange where
  id : NodeId
  name : String
  lower : Int64
  upper : Int64

namespace AxisRange

/-- The axis as an expression. -/
def expr (range : AxisRange) : Expr :=
  .axis range.id range.name (.const range.lower) (.const range.upper)

/-- The numbers from the lower bound on below the upper bound. -/
def numbers (range : AxisRange) : List Int := counters range.lower.toInt range.upper.toInt 1

end AxisRange

/-- The points of the product of ranges, the last range running fastest. -/
def points : List AxisRange → Env → List Env
  | [], env => [env]
  | range :: rest, env => range.numbers.flatMap fun number => points rest (env.set range.id number)

namespace Meaning

/-- Combines the value of a body with what was accumulated. -/
def accumulate (kind : ReduceKind) (dtype : DType) (data current : Scalar) : Except Fault Scalar :=
  arithmetic (kind.combine dtype) dtype data current

/-- A reduction over the points of a product of ranges. -/
def reduce (kind : ReduceKind) (dtype : DType) (body : Expr) (ranges : List AxisRange) (env : Env)
    (memory : Memory) : Except Fault Scalar := do
  let start ← constant dtype (kind.identity dtype)
  (points ranges env).foldlM (fun current point => do
    let data ← body.value point memory
    accumulate kind dtype data current) start

end Meaning

namespace ReduceKind

/-- How a kind combines two integers. -/
def apply (kind : ReduceKind) (data current : Int) : Int :=
  match kind with
  | .sum => data + current
  | .min => Min.min data current
  | .max => Max.max data current

/-- The result of a reduction without points. -/
def start? (kind : ReduceKind) (dtype : DType) : Option Int :=
  match kind with
  | .sum => some 0
  | .min => dtype.rawMax?
  | .max => dtype.rawMin?

/-- What the result of a reduction of integers is, of the values at all points. -/
def Law (kind : ReduceKind) (dtype : DType) (values : List Int) (result : Int) : Prop :=
  match kind with
  | .sum => result % 2 ^ dtype.width = values.foldr (· + ·) 0 % 2 ^ dtype.width
  | .min =>
    if values = [] then dtype.rawMax? = some result
    else result ∈ values ∧ ∀ value ∈ values, result ≤ value
  | .max =>
    if values = [] then dtype.rawMin? = some result
    else result ∈ values ∧ ∀ value ∈ values, value ≤ result

theorem combine_isArithmetic (kind : ReduceKind) (dtype : DType) :
    (kind.combine dtype).isArithmetic = true := by
  cases sort : dtype.category <;> cases unsigned : dtype.isUnsigned <;> cases kind <;>
    simp [ReduceKind.combine, sort, unsigned, OpKind.isArithmetic]

end ReduceKind

/-! ## Ranges of types -/

theorem signed_eq_iff {value : Int} {width : Nat} (positive : 0 < width) :
    signed value width = value ↔ -2 ^ (width - 1) ≤ value ∧ value ≤ 2 ^ (width - 1) - 1 := by
  obtain ⟨half, rfl⟩ : ∃ half, width = half + 1 := ⟨width - 1, by omega⟩
  have double : ((2 ^ (half + 1) : Nat) : Int) = 2 * 2 ^ half := by
    push_cast
    rw [Int.pow_succ, Int.mul_comm]
  have large : (0 : Int) < 2 ^ half := Int.pow_pos (by decide)
  rw [signed, Nat.add_sub_cancel]
  constructor
  · intro same
    have least := Int.le_bmod (x := value) (m := 2 ^ (half + 1)) (Nat.two_pow_pos _)
    have greatest := Int.bmod_lt (x := value) (m := 2 ^ (half + 1)) (Nat.two_pow_pos _)
    rw [same, double] at least greatest
    omega
  · rintro ⟨least, greatest⟩
    refine Int.bmod_eq_of_le ?_ ?_
    · rw [double]
      omega
    · rw [double]
      omega

theorem unsigned_eq_iff {value : Int} {width : Nat} :
    unsigned value width = value ↔ 0 ≤ value ∧ value ≤ 2 ^ width - 1 := by
  have large : (0 : Int) < 2 ^ width := Int.pow_pos (by decide)
  rw [unsigned]
  constructor
  · intro same
    have least := Int.emod_nonneg value (Int.ne_of_gt large)
    have greatest := Int.emod_lt_of_pos value large
    omega
  · rintro ⟨least, greatest⟩
    exact Int.emod_eq_of_lt least (by omega)

theorem normalize_int {width : Nat} (wide : width ≠ 1) (value : Int) :
    normalize value (.int width) = signed value width := by
  simp [normalize, DType.isUnsigned, DType.isBool, wide, DType.width]

/-- The integers that fit a type are those of its raw range. -/
theorem DType.raw_range {dtype : DType} (raw : dtype.isFloat = false) (positive : 0 < dtype.width)
    (small : dtype.width ≤ 64) :
    ∃ low high, dtype.rawMin? = some low ∧ dtype.rawMax? = some high ∧
      ∀ value, (Scalar.int value).Fits dtype ↔ low ≤ value ∧ value ≤ high := by
  have narrow : ¬ dtype.width > maxIntWidth := by
    simp only [maxIntWidth]
    omega
  have fits : ∀ value, (Scalar.int value).Fits dtype ↔ normalize value dtype = value :=
    fun value => ⟨fun fits => fits.2, fun normal => ⟨raw, normal⟩⟩
  simp only [fits, rawMin?, rawMax?, if_neg narrow]
  cases dtype with
  | int width =>
      by_cases one : width = 1
      · subst one
        exact ⟨0, 1, rfl, rfl, fun value => unsigned_eq_iff⟩
      · refine ⟨-2 ^ (width - 1), 2 ^ (width - 1) - 1, ?_, ?_, fun value => ?_⟩
        · split <;> simp_all
        · split <;> simp_all
        · rw [normalize_int one]
          exact signed_eq_iff positive
  | uint width => exact ⟨0, 2 ^ width - 1, rfl, rfl, fun value => unsigned_eq_iff⟩
  | index => exact ⟨-2 ^ 63, 2 ^ 63 - 1, rfl, rfl, fun value => signed_eq_iff (by decide)⟩
  | fixed width fraction =>
      exact ⟨-2 ^ (width - 1), 2 ^ (width - 1) - 1, rfl, rfl, fun value => signed_eq_iff positive⟩
  | ufixed width fraction => exact ⟨0, 2 ^ width - 1, rfl, rfl, fun value => unsigned_eq_iff⟩
  | _ => cases raw

/-- Normalization keeps an integer modulo the width of the type. -/
theorem normalize_emod (value : Int) (dtype : DType) :
    normalize value dtype % 2 ^ dtype.width = value % 2 ^ dtype.width := by
  have power : ((2 ^ dtype.width : Nat) : Int) = 2 ^ dtype.width := by push_cast; rfl
  unfold normalize
  split
  · exact Int.emod_emod_of_dvd value (Int.dvd_refl _)
  · rw [signed, ← power]
    exact Int.bmod_emod

/-- Normalization only looks at the low bits. -/
theorem normalize_congr {first second : Int} {dtype : DType}
    (same : first % 2 ^ dtype.width = second % 2 ^ dtype.width) :
    normalize first dtype = normalize second dtype := by
  have power : ((2 ^ dtype.width : Nat) : Int) = 2 ^ dtype.width := by push_cast; rfl
  have low : signed first dtype.width = signed second dtype.width := by
    simp only [signed, Int.bmod, power, same]
  simp only [normalize, unsigned, low, same]

/-! ## Start values and combinations -/

namespace Meaning

variable {dtype : DType}

/-- An integer constant of its own type is normalized. -/
theorem constant_int (raw : dtype.isFloat = false) (word : Int64) :
    constant dtype (.int word dtype) = .ok (.int (normalize word.toInt dtype)) := by
  have category : dtype.category ≠ .float := by
    rw [← Bool.not_eq_true, isFloat_iff] at raw
    exact raw
  have same : ∀ value, Scalar.ofRaw value dtype dtype = .int (normalize value dtype) := by
    intro value
    have scaled : rescale value dtype.fraction dtype.fraction = value := by
      simp [rescale]
    unfold Scalar.ofRaw
    rw [scaled]
    split
    · contradiction
    · contradiction
    · rfl
  rw [constant, Scalar.convert, same, normalize_normalize]

/-- A word keeps all bits of an integer that a type of at most 64 bits has. -/
theorem normalize_ofInt (small : dtype.width ≤ 64) (value : Int) :
    normalize (Int64.ofInt value).toInt dtype = normalize value dtype := by
  have divides : (2 ^ dtype.width : Int) ∣ 2 ^ 64 := by
    refine ⟨2 ^ (64 - dtype.width), ?_⟩
    rw [← Int.pow_add, Nat.add_sub_cancel' small]
  have word : (Int64.ofInt value).toInt % 2 ^ 64 = value % 2 ^ 64 := by
    rw [Int64.toInt_ofInt]
    exact Int.bmod_emod
  apply normalize_congr
  rw [← Int.emod_emod_of_dvd _ divides, word, Int.emod_emod_of_dvd _ divides]

/-- An integer that fits a type of at most 64 bits is the word that holds it. -/
theorem normalize_word (small : dtype.width ≤ 64) {value : Int}
    (fits : (Scalar.int value).Fits dtype) :
    normalize (Int64.ofInt value).toInt dtype = value := by
  rw [normalize_ofInt small]
  exact fits.2

/-- The start value of a reduction of integers. -/
theorem constant_identity (kind : ReduceKind) (raw : dtype.isFloat = false)
    (positive : 0 < dtype.width) (small : dtype.width ≤ 64) :
    ∃ start, kind.start? dtype = some start ∧
      constant dtype (kind.identity dtype) = .ok (.int start) ∧ (Scalar.int start).Fits dtype := by
  obtain ⟨low, high, least, greatest, range⟩ := DType.raw_range raw positive small
  have zero : (Scalar.int 0).Fits dtype := by
    refine ⟨raw, ?_⟩
    simp [normalize, signed, unsigned]
  obtain ⟨below, above⟩ := (range 0).mp zero
  cases kind with
  | sum =>
      have known : ReduceKind.sum.identity dtype = .int 0 dtype := by
        cases dtype with
        | float16 | float32 | float64 => cases raw
        | _ => simp [ReduceKind.identity, Literal.toAttribute, DType.category]
      refine ⟨0, rfl, ?_, zero⟩
      rw [known, constant_int raw]
      exact congrArg (fun value => Except.ok (Scalar.int value)) zero.2
  | min =>
      have fits : (Scalar.int high).Fits dtype := (range high).mpr ⟨by omega, by omega⟩
      have known : ReduceKind.min.identity dtype = .int (Int64.ofInt high) dtype := by
        simp [ReduceKind.identity, raw, greatest]
      refine ⟨high, greatest, ?_, fits⟩
      rw [known, constant_int raw, normalize_word small fits]
  | max =>
      have fits : (Scalar.int low).Fits dtype := (range low).mpr ⟨by omega, by omega⟩
      have known : ReduceKind.max.identity dtype = .int (Int64.ofInt low) dtype := by
        simp [ReduceKind.identity, raw, least]
      refine ⟨low, least, ?_, fits⟩
      rw [known, constant_int raw, normalize_word small fits]

/-- Every reduction has a start value. -/
theorem constant_identity_fits (kind : ReduceKind) (dtype : DType) :
    ∃ start, constant dtype (kind.identity dtype) = .ok start ∧ start.Fits dtype := by
  have form : (∃ word, kind.identity dtype = .int word dtype) ∨
      ∃ x, kind.identity dtype = .float x dtype := by
    cases kind <;> cases dtype <;> simp [ReduceKind.identity, Literal.toAttribute, DType.category,
      DType.isFloat]
  rcases form with ⟨word, known⟩ | ⟨x, known⟩ <;> rw [known]
  · exact ⟨_, rfl, Scalar.convert_fits _ _ _⟩
  · exact ⟨_, rfl, Scalar.convert_fits _ _ _⟩

/-- Integers that fit a type are combined by the function of the kind. -/
theorem accumulate_int {kind : ReduceKind} (raw : dtype.isFloat = false)
    (counts : kind = .sum ∨ dtype ≠ .bool) {data current : Int} (left : (Scalar.int data).Fits dtype)
    (right : (Scalar.int current).Fits dtype) :
    accumulate kind dtype (.int data) (.int current) =
      .ok (.int (normalize (kind.apply data current) dtype)) := by
  have combined : Arithmetic.onInts (kind.combine dtype) dtype data current =
      .ok (kind.apply data current) := by
    have one := left.2
    have two := right.2
    cases dtype with
    | int width =>
        by_cases bit : width = 1
        · obtain rfl : kind = .sum := by
            rcases counts with sum | other
            · exact sum
            · exact absurd (congrArg DType.int bit) other
          rfl
        · rw [normalize_int bit] at one two
          cases kind <;> simp [ReduceKind.combine, DType.category, DType.isUnsigned,
            Arithmetic.onInts, ReduceKind.apply, DType.width, one, two]
    | uint width =>
        simp only [normalize, DType.isUnsigned, Bool.true_or, ↓reduceIte] at one two
        cases kind <;> simp [ReduceKind.combine, DType.category, DType.isUnsigned,
          Arithmetic.onInts, ReduceKind.apply, one, two]
    | index =>
        simp only [normalize, DType.isUnsigned, DType.isBool, Bool.or_self, Bool.false_eq_true,
          ↓reduceIte] at one two
        cases kind <;> simp [ReduceKind.combine, DType.category, DType.isUnsigned,
          Arithmetic.onInts, ReduceKind.apply, one, two]
    | fixed width fraction | ufixed width fraction => cases kind <;> rfl
    | _ => cases raw
  simp only [accumulate, arithmetic, Arithmetic.binary, combined]
  rfl

/-- Scalars of one type can be combined. -/
theorem accumulate_fits (kind : ReduceKind) {data current : Scalar} (left : data.Fits dtype)
    (right : current.Fits dtype) :
    ∃ result, accumulate kind dtype data current = .ok result ∧ result.Fits dtype := by
  by_cases float : dtype.category = .float
  · obtain ⟨a, rfl⟩ := left.exists_float float
    obtain ⟨b, rfl⟩ := right.exists_float float
    have result : ∃ x, accumulate kind dtype (.float a) (.float b) = .ok (.float x) := by
      cases kind <;> simp only [accumulate, ReduceKind.combine, float] <;> exact ⟨_, rfl⟩
    obtain ⟨x, known⟩ := result
    exact ⟨.float x, known, Scalar.fits_float x float⟩
  · obtain ⟨a, rfl⟩ := left.exists_int float
    obtain ⟨b, rfl⟩ := right.exists_int float
    have supported : ∃ value, Arithmetic.onInts (kind.combine dtype) dtype a b = .ok value := by
      cases sort : dtype.category with
      | float => exact absurd sort float
      | int => cases kind <;> cases unsigned : dtype.isUnsigned <;>
          simp [ReduceKind.combine, sort, unsigned, Arithmetic.onInts]
      | fixed => cases kind <;> simp [ReduceKind.combine, sort, Arithmetic.onInts]
    obtain ⟨value, known⟩ := supported
    refine ⟨.int (normalize value dtype), ?_, Scalar.fits_normalize value float⟩
    simp only [accumulate, arithmetic, Arithmetic.binary, known]
    rfl

end Meaning

/-! ## The law -/

/-- Combining integers one after the other, as a machine does it. -/
def ReduceKind.fold (kind : ReduceKind) (dtype : DType) (values : List Int) (start : Int) : Int :=
  values.foldl (fun current value => normalize (kind.apply value current) dtype) start

namespace ReduceKind

variable {dtype : DType} {values : List Int} {start : Int}

theorem fold_fits (kind : ReduceKind) (raw : dtype.isFloat = false)
    (fits : (Scalar.int start).Fits dtype) :
    (Scalar.int (kind.fold dtype values start)).Fits dtype := by
  induction values generalizing start with
  | nil => exact fits
  | cons value rest ih => exact ih ⟨raw, normalize_normalize _ _⟩

/-- A sum is congruent to the sum of the values. -/
theorem fold_sum (dtype : DType) (values : List Int) (start : Int) :
    ReduceKind.sum.fold dtype values start % 2 ^ dtype.width =
      (start + values.foldr (· + ·) 0) % 2 ^ dtype.width := by
  induction values generalizing start with
  | nil => simp [fold]
  | cons value rest ih =>
      have step : ReduceKind.sum.fold dtype (value :: rest) start =
          ReduceKind.sum.fold dtype rest (normalize (value + start) dtype) := rfl
      rw [step, ih, Int.add_emod, normalize_emod, ← Int.add_emod, List.foldr_cons]
      congr 1
      omega

/-- A kind that picks one of two integers, where the one picked comes first in an order. -/
structure Picks (kind : ReduceKind) (comes : Int → Int → Prop) : Prop where
  picks : ∀ a b, (kind.apply a b = a ∧ comes a b) ∨ (kind.apply a b = b ∧ comes b a)
  refl : ∀ a, comes a a
  trans : ∀ {a b c}, comes a b → comes b c → comes a c
  antisymm : ∀ {a b}, comes a b → comes b a → a = b

theorem min_picks : ReduceKind.min.Picks (· ≤ ·) where
  picks a b := by
    simp only [apply]
    omega
  refl a := Int.le_refl a
  trans := Int.le_trans
  antisymm := Int.le_antisymm

theorem max_picks : ReduceKind.max.Picks (fun a b => b ≤ a) where
  picks a b := by
    simp only [apply]
    omega
  refl a := Int.le_refl a
  trans first second := Int.le_trans second first
  antisymm first second := Int.le_antisymm second first

namespace Picks

variable {kind : ReduceKind} {comes : Int → Int → Prop} (order : kind.Picks comes)
include order

/-- What was picked is the start or one of the values, and it comes before all of them. -/
theorem fold_spec (startFits : (Scalar.int start).Fits dtype)
    (fits : ∀ value ∈ values, (Scalar.int value).Fits dtype) :
    (kind.fold dtype values start = start ∨ kind.fold dtype values start ∈ values) ∧
      comes (kind.fold dtype values start) start ∧
      ∀ value ∈ values, comes (kind.fold dtype values start) value := by
  induction values generalizing start with
  | nil => exact ⟨.inl rfl, order.refl start, by simp⟩
  | cons value rest ih =>
      have valueFits := fits value (by simp)
      have restFits : ∀ other ∈ rest, (Scalar.int other).Fits dtype :=
        fun other inside => fits other (by simp [inside])
      have step : kind.fold dtype (value :: rest) start =
          kind.fold dtype rest (normalize (kind.apply value start) dtype) := rfl
      rcases order.picks value start with ⟨picked, first⟩ | ⟨picked, first⟩
      · rw [step, picked, valueFits.2]
        obtain ⟨member, below, all⟩ := ih valueFits restFits
        refine ⟨.inr ?_, order.trans below first, ?_⟩
        · rcases member with same | inside
          · simp [same]
          · exact List.mem_cons_of_mem _ inside
        · intro other inside
          rcases List.mem_cons.mp inside with rfl | later
          · exact below
          · exact all other later
      · rw [step, picked, startFits.2]
        obtain ⟨member, below, all⟩ := ih startFits restFits
        refine ⟨?_, below, ?_⟩
        · rcases member with same | inside
          · exact .inl same
          · exact .inr (List.mem_cons_of_mem _ inside)
        · intro other inside
          rcases List.mem_cons.mp inside with rfl | later
          · exact order.trans below first
          · exact all other later

/-- If no value comes after the start, what is picked among values is one of them. -/
theorem fold_extreme (startFits : (Scalar.int start).Fits dtype)
    (fits : ∀ value ∈ values, (Scalar.int value).Fits dtype)
    (last : ∀ value ∈ values, comes value start) (some_ : values ≠ []) :
    kind.fold dtype values start ∈ values ∧
      ∀ value ∈ values, comes (kind.fold dtype values start) value := by
  obtain ⟨member, -, all⟩ := order.fold_spec startFits fits
  refine ⟨?_, all⟩
  rcases member with same | inside
  · obtain ⟨value, inside⟩ := List.exists_mem_of_ne_nil values some_
    have first := all value inside
    rw [same] at first ⊢
    rwa [order.antisymm first (last value inside)]
  · exact inside

end Picks

/-- The fold of integers that fit a type follows the law of the kind. -/
theorem fold_law (kind : ReduceKind) (raw : dtype.isFloat = false) (positive : 0 < dtype.width)
    (small : dtype.width ≤ 64) (begins : kind.start? dtype = some start)
    (startFits : (Scalar.int start).Fits dtype)
    (fits : ∀ value ∈ values, (Scalar.int value).Fits dtype) :
    kind.Law dtype values (kind.fold dtype values start) := by
  obtain ⟨low, high, least, greatest, range⟩ := DType.raw_range raw positive small
  cases kind with
  | sum =>
      cases begins
      simpa [Law] using fold_sum dtype values 0
  | min =>
      obtain rfl : high = start := Option.some.inj (greatest.symm.trans begins)
      simp only [Law]
      split
      · rename_i empty
        rw [empty]
        exact greatest
      · rename_i some_
        exact min_picks.fold_extreme startFits fits
          (fun value inside => ((range value).mp (fits value inside)).2) some_
  | max =>
      obtain rfl : low = start := Option.some.inj (least.symm.trans begins)
      simp only [Law]
      split
      · rename_i empty
        rw [empty]
        exact least
      · rename_i some_
        exact max_picks.fold_extreme startFits fits
          (fun value inside => ((range value).mp (fits value inside)).1) some_

end ReduceKind

namespace Meaning

variable {dtype : DType} {body : Expr} {memory : Memory}

/-- A body with integer values at all points is accumulated by the fold of its kind. -/
theorem foldlM_accumulate {kind : ReduceKind} (raw : dtype.isFloat = false)
    (counts : kind = .sum ∨ dtype ≠ .bool) {places : List Env} {values : List Int} {start : Int}
    (evaluated : places.map (fun point => body.value point memory) =
      values.map fun value => .ok (.int value))
    (fits : ∀ value ∈ values, (Scalar.int value).Fits dtype)
    (startFits : (Scalar.int start).Fits dtype) :
    places.foldlM (fun current point => do
      let data ← body.value point memory
      accumulate kind dtype data current) (.int start) =
        .ok (.int (kind.fold dtype values start)) := by
  induction places generalizing values start with
  | nil =>
      cases values with
      | nil => rfl
      | cons value rest => cases evaluated
  | cons place rest ih =>
      cases values with
      | nil => cases evaluated
      | cons value others =>
          rw [List.map_cons, List.map_cons, List.cons.injEq] at evaluated
          have first : (do
              let data ← body.value place memory
              accumulate kind dtype data (.int start)) =
                Except.ok (.int (normalize (kind.apply value start) dtype)) := by
            rw [evaluated.1]
            exact accumulate_int raw counts (fits value (by simp)) startFits
          rw [List.foldlM_cons, first]
          exact ih evaluated.2 (fun other inside => fits other (by simp [inside]))
            ⟨raw, normalize_normalize _ _⟩

/-- **The law of reductions.** A reduction whose body has an integer of its type at every point has
a result, and it follows the law of the kind. -/
theorem reduce_law {kind : ReduceKind} {ranges : List AxisRange} {env : Env}
    (raw : dtype.isFloat = false) (positive : 0 < dtype.width) (small : dtype.width ≤ 64)
    (counts : kind = .sum ∨ dtype ≠ .bool) {values : List Int}
    (evaluated : (points ranges env).map (fun point => body.value point memory) =
      values.map fun value => .ok (.int value))
    (fits : ∀ value ∈ values, (Scalar.int value).Fits dtype) :
    ∃ result, reduce kind dtype body ranges env memory = .ok (.int result) ∧
      (Scalar.int result).Fits dtype ∧ kind.Law dtype values result := by
  obtain ⟨start, begins, known, startFits⟩ := constant_identity kind raw positive small
  refine ⟨kind.fold dtype values start, ?_, kind.fold_fits raw startFits,
    kind.fold_law raw positive small begins startFits fits⟩
  rw [reduce, known]
  exact foldlM_accumulate raw counts evaluated fits startFits

end Meaning

end AffineKernel
