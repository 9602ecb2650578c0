import Mathlib.Data.List.Forall2
import Mathlib.Tactic.Ring
import Mathlib.Tactic.Linarith
import AffineKernel.Semantics.Buffer

/-!
# Buffers are row-major arrays

The place of an index tuple is its number in mixed radix, with the extents of
the shape as the bases. One extent more multiplies what is counted by the number
of elements of the remaining shape (`Buffer.offset?_cons`), and every fact about
places follows by induction on the shape: there is a place exactly for the
tuples in bounds, it is below the number of elements, places are ordered as the
tuples are lexicographically, and every place an index can count to is taken
(`Buffer.RowMajor`).

A buffer whose data have as many elements as its shape says keeps that, however
it is written to. So it gives, at each tuple in bounds, what was written there
last, or else what it was made of (`Buffer.rowMajor_faithful`).
-/

set_option autoImplicit false

namespace AffineKernel.Buffer

/-- An index for every extent, each of them below its extent. -/
def InBounds (shape : List Nat) (indices : List Int64) : Prop :=
  List.Forall₂ (fun (extent : Nat) (index : Int64) => 0 ≤ index.toInt ∧ index.toInt < extent)
    shape indices

/-- The places of a shape: one for each tuple in bounds, without gaps, in lexicographic order. The
places on the way to one are below the products of the extents so far. -/
structure RowMajor (shape : List Nat) : Prop where
  defined : ∀ indices, (∃ place, offset? shape indices = some place) ↔ InBounds shape indices
  below : ∀ indices place, offset? shape indices = some place → place < extentProduct shape
  injective : ∀ first second place,
    offset? shape first = some place → offset? shape second = some place → first = second
  monotone : ∀ first second low high, offset? shape first = some low →
    offset? shape second = some high → List.Lex (· < ·) first second → low < high
  /-- An index counts to `2 ^ 63`. -/
  onto : ∀ place < extentProduct shape, place < 2 ^ 63 →
    ∃ indices, offset? shape indices = some place
  gradual : ∀ count indices,
    (offset? shape indices =
        (offset? (shape.take count) (indices.take count)).bind fun leading =>
          offsetFrom leading (shape.drop count) (indices.drop count)) ∧
      ∀ leading, offset? (shape.take count) (indices.take count) = some leading →
        leading < extentProduct (shape.take count)

/-! ## Places -/

@[simp] theorem extentProduct_nil : extentProduct [] = 1 := rfl

@[simp] theorem extentProduct_cons (extent : Nat) (shape : List Nat) :
    extentProduct (extent :: shape) = extent * extentProduct shape := by
  simp only [extentProduct, ← List.prod_eq_foldl, List.prod_cons]

/-- Rows before a place are counted in elements of the remaining shape. -/
theorem offsetFrom_eq (leading : Nat) (shape : List Nat) (indices : List Int64) :
    offsetFrom leading shape indices =
      (offset? shape indices).map (leading * extentProduct shape + ·) := by
  induction shape generalizing leading indices with
  | nil => cases indices <;> simp [offset?, offsetFrom]
  | cons extent shape ih =>
      cases indices with
      | nil => rfl
      | cons index indices =>
          simp only [offset?, offsetFrom]
          split
          · rw [ih, ih (0 * extent + index.toInt.toNat), Option.map_map]
            refine congrFun (congrArg Option.map (funext fun place => ?_)) _
            simp only [Function.comp_apply, extentProduct_cons]
            ring
          · rfl

/-- The place of a tuple, one extent at a time. -/
theorem offset?_cons (extent : Nat) (shape : List Nat) (index : Int64) (indices : List Int64) :
    offset? (extent :: shape) (index :: indices) =
      if 0 ≤ index.toInt ∧ index.toInt < extent then
        (offset? shape indices).map (index.toInt.toNat * extentProduct shape + ·)
      else none := by
  simp only [offset?, offsetFrom]
  rw [offsetFrom_eq, Nat.zero_mul, Nat.zero_add]
  rfl

/-- The first index of a place counts rows, and the rest is a place in a row. -/
theorem offset?_cons_eq_some {extent : Nat} {shape : List Nat} {index : Int64}
    {indices : List Int64} {place : Nat}
    (placed : offset? (extent :: shape) (index :: indices) = some place) :
    (0 ≤ index.toInt ∧ index.toInt < extent) ∧ ∃ rest, offset? shape indices = some rest ∧
      place = index.toInt.toNat * extentProduct shape + rest := by
  rw [offset?_cons] at placed
  split at placed
  · next inside =>
    obtain ⟨rest, found, rfl⟩ := Option.map_eq_some_iff.mp placed
    exact ⟨inside, rest, found, rfl⟩
  · cases placed

theorem offset?_isSome_iff (shape : List Nat) (indices : List Int64) :
    (∃ place, offset? shape indices = some place) ↔ InBounds shape indices := by
  induction shape generalizing indices with
  | nil => cases indices <;> simp [offset?, offsetFrom, InBounds]
  | cons extent shape ih =>
      cases indices with
      | nil => simp [offset?, offsetFrom, InBounds]
      | cons index indices =>
          rw [InBounds, List.forall₂_cons]
          constructor
          · rintro ⟨place, placed⟩
            obtain ⟨inside, rest, found, -⟩ := offset?_cons_eq_some placed
            exact ⟨inside, (ih indices).mp ⟨rest, found⟩⟩
          · rintro ⟨inside, further⟩
            obtain ⟨rest, found⟩ := (ih indices).mpr further
            exact ⟨_, by rw [offset?_cons, if_pos inside, found]; rfl⟩

theorem offset?_eq_none {shape : List Nat} {indices : List Int64}
    (outside : ¬ InBounds shape indices) : offset? shape indices = none :=
  Option.eq_none_iff_forall_ne_some.mpr fun place placed =>
    outside ((offset?_isSome_iff shape indices).mp ⟨place, placed⟩)

theorem offset?_lt {shape : List Nat} {indices : List Int64} {place : Nat}
    (placed : offset? shape indices = some place) : place < extentProduct shape := by
  induction shape generalizing indices place with
  | nil =>
      cases indices with
      | nil => exact Option.some.inj placed ▸ Nat.one_pos
      | cons index indices => cases placed
  | cons extent shape ih =>
      cases indices with
      | nil => cases placed
      | cons index indices =>
          obtain ⟨inside, rest, found, rfl⟩ := offset?_cons_eq_some placed
          have small := ih found
          have row : index.toInt.toNat + 1 ≤ extent := by omega
          calc index.toInt.toNat * extentProduct shape + rest
              < (index.toInt.toNat + 1) * extentProduct shape := by linarith
            _ ≤ extent * extentProduct shape := Nat.mul_le_mul_right _ row
            _ = _ := (extentProduct_cons extent shape).symm

/-- A later row is behind all of an earlier one. -/
theorem row_lt {width row other rest further : Nat} (later : row < other) (small : rest < width) :
    row * width + rest < other * width + further := by
  have next : (row + 1) * width ≤ other * width := Nat.mul_le_mul_right _ later
  linarith

theorem offset?_injective {shape : List Nat} {first second : List Int64} {place : Nat}
    (one : offset? shape first = some place) (two : offset? shape second = some place) :
    first = second := by
  induction shape generalizing first second place with
  | nil =>
      cases first with
      | nil =>
          cases second with
          | nil => rfl
          | cons index second => cases two
      | cons index first => cases one
  | cons extent shape ih =>
      cases first with
      | nil => cases one
      | cons index first =>
          cases second with
          | nil => cases two
          | cons index' second =>
              obtain ⟨inside, rest, found, rfl⟩ := offset?_cons_eq_some one
              obtain ⟨inside', rest', found', same⟩ := offset?_cons_eq_some two
              have small := offset?_lt found
              have small' := offset?_lt found'
              have rows : index.toInt.toNat = index'.toInt.toNat := by
                rcases Nat.lt_trichotomy index.toInt.toNat index'.toInt.toNat with
                  less | equal | more
                · exact absurd same (Nat.ne_of_lt (row_lt less small))
                · exact equal
                · exact absurd same.symm (Nat.ne_of_lt (row_lt more small'))
              obtain rfl : index = index' := Int64.toInt_inj.mp (by omega)
              obtain rfl : rest = rest' := Nat.add_left_cancel same
              rw [ih found found']

theorem offset?_lt_of_lex {shape : List Nat} {first second : List Int64} {low high : Nat}
    (one : offset? shape first = some low) (two : offset? shape second = some high)
    (before : List.Lex (· < ·) first second) : low < high := by
  induction before generalizing shape low high with
  | nil =>
      cases shape with
      | nil => cases two
      | cons extent shape => cases one
  | @cons index first second _ ih =>
      cases shape with
      | nil => cases one
      | cons extent shape =>
          obtain ⟨-, rest, found, rfl⟩ := offset?_cons_eq_some one
          obtain ⟨-, rest', found', rfl⟩ := offset?_cons_eq_some two
          exact Nat.add_lt_add_left (ih found found') _
  | @rel index first index' second less =>
      cases shape with
      | nil => cases one
      | cons extent shape =>
          obtain ⟨inside, rest, found, rfl⟩ := offset?_cons_eq_some one
          obtain ⟨inside', rest', found', rfl⟩ := offset?_cons_eq_some two
          have smaller := Int64.lt_iff_toInt_lt.mp less
          exact row_lt (by omega) (offset?_lt found)

/-- A number below `2 ^ 63` is an index. -/
theorem toInt_ofNat {number : Nat} (small : number < 2 ^ 63) :
    (Int64.ofNat number).toInt = number :=
  Int64.toInt_ofNat_of_lt small

theorem exists_offset? {shape : List Nat} {place : Nat} (below : place < extentProduct shape)
    (counted : place < 2 ^ 63) : ∃ indices, offset? shape indices = some place := by
  induction shape generalizing place with
  | nil =>
      obtain rfl : place = 0 := Nat.lt_one_iff.mp below
      exact ⟨[], rfl⟩
  | cons extent shape ih =>
      rw [extentProduct_cons] at below
      have positive : 0 < extentProduct shape := Nat.pos_of_mul_pos_left (Nat.zero_lt_of_lt below)
      -- The row of the place, and the place in the row, are no larger than the place.
      have row : place / extentProduct shape < extent :=
        Nat.div_lt_of_lt_mul (by rwa [Nat.mul_comm] at below)
      have index := toInt_ofNat
        (Nat.lt_of_le_of_lt (Nat.div_le_self place (extentProduct shape)) counted)
      obtain ⟨indices, found⟩ := ih (Nat.mod_lt place positive)
        (Nat.lt_of_le_of_lt (Nat.mod_le place _) counted)
      refine ⟨Int64.ofNat (place / extentProduct shape) :: indices, ?_⟩
      rw [offset?_cons, index, if_pos ⟨Int.natCast_nonneg _, by exact_mod_cast row⟩, found,
        Option.map_some, Int.toNat_natCast, Nat.mul_comm, Nat.div_add_mod]

theorem offsetFrom_take (leading count : Nat) (shape : List Nat) (indices : List Int64) :
    offsetFrom leading shape indices =
      (offsetFrom leading (shape.take count) (indices.take count)).bind fun further =>
        offsetFrom further (shape.drop count) (indices.drop count) := by
  induction count generalizing leading shape indices with
  | zero => simp [offsetFrom]
  | succ count ih =>
      cases shape with
      | nil => cases indices <;> simp [offsetFrom]
      | cons extent shape =>
          cases indices with
          | nil => simp [offsetFrom]
          | cons index indices =>
              simp only [List.take_succ_cons, List.drop_succ_cons, offsetFrom]
              split
              · exact ih _ shape indices
              · rfl

theorem rowMajor (shape : List Nat) : RowMajor shape where
  defined := offset?_isSome_iff shape
  below _ _ := offset?_lt
  injective _ _ _ := offset?_injective
  monotone _ _ _ _ := offset?_lt_of_lex
  onto _ := exists_offset?
  gradual count indices := ⟨offsetFrom_take 0 count shape indices, fun _ => offset?_lt⟩

/-! ## Buffers -/

/-- What a new buffer is made of. -/
inductive Content where
  | zeros
  | ints (values : List Int64)
  | floats (values : List Float)

/-- The new buffer. -/
def Content.buffer (content : Content) (shape : List Nat) (element : DType) : Buffer :=
  match content with
  | .zeros => Buffer.zeros shape element
  | .ints values => ofInts shape element values
  | .floats values => ofFloats shape element values

/-- The element at a place of the new buffer: a given number, converted, or zero. -/
def Content.scalar (content : Content) (element : DType) (place : Nat) : Scalar :=
  match content with
  | .zeros => .zero element
  | .ints values => (values[place]?.map fun value =>
      (Scalar.int value.toInt).convert .int64 element).getD (.zero element)
  | .floats values => (values[place]?.map fun x =>
      (Scalar.float x).convert .float64 element).getD (.zero element)

/-- Writes an element; whether the tuple was in bounds, and the buffer afterwards. -/
def write (buffer : Buffer) (indices : List Int64) (value : Scalar) : Bool × Buffer :=
  match buffer.set? indices value with
  | some changed => (true, changed)
  | none => (false, buffer)

/-- Writes elements one after the other. -/
def writes (buffer : Buffer) (values : List (List Int64 × Scalar)) : Buffer :=
  values.foldl (fun buffer given => (buffer.write given.1 given.2).2) buffer

/-- The data of a buffer of some shape, told by a function of the places. -/
structure Filled (buffer : Buffer) (shape : List Nat) (known : Nat → Scalar) : Prop where
  shaped : buffer.shape = shape
  sized : buffer.data.size = extentProduct shape
  elements : ∀ place < extentProduct shape, buffer.data[place]? = some (known place)

section Content

variable {shape : List Nat} {element : DType} {place : Nat}

/-- An element of a buffer of given scalars; it is zero if there are not that many. -/
theorem ofScalars_data (values : List Scalar) (inside : place < extentProduct shape) :
    (ofScalars shape element values).data[place]? =
      some (values[place]?.getD (.zero element)) := by
  simp only [ofScalars, List.getElem?_toArray]
  rcases Nat.lt_or_ge place values.length with given | missing
  · rw [List.getElem?_append_left (by rw [List.length_take]; omega),
      List.getElem?_take_of_lt inside, List.getElem?_eq_getElem given, Option.getD_some]
  · have all : values.take (extentProduct shape) = values :=
      List.take_of_length_le (Nat.le_trans missing (Nat.le_of_lt inside))
    rw [all, List.getElem?_append_right missing, List.getElem?_eq_none missing, Option.getD_none,
      List.getElem?_replicate, if_pos (by omega)]

theorem ofScalars_size (values : List Scalar) :
    (ofScalars shape element values).data.size = extentProduct shape := by
  simp only [ofScalars, List.size_toArray, List.length_append, List.length_take,
    List.length_replicate]
  omega

/-- A new buffer is filled with what it is made of. -/
theorem Content.filled (content : Content) (shape : List Nat) (element : DType) :
    (content.buffer shape element).Filled shape (content.scalar element) := by
  cases content with
  | zeros =>
      refine ⟨rfl, Array.size_replicate, fun place inside => ?_⟩
      simp [Content.buffer, Buffer.zeros, Content.scalar, inside]
  | ints values =>
      refine ⟨rfl, ofScalars_size _, fun place inside => ?_⟩
      rw [Content.buffer, ofInts, ofScalars_data _ inside, List.getElem?_map]
      rfl
  | floats values =>
      refine ⟨rfl, ofScalars_size _, fun place inside => ?_⟩
      rw [Content.buffer, ofFloats, ofScalars_data _ inside, List.getElem?_map]
      rfl

end Content

namespace Filled

variable {buffer : Buffer} {shape : List Nat} {known : Nat → Scalar}
  (filled : buffer.Filled shape known) {indices : List Int64}
include filled

theorem get?_eq {place : Nat} (placed : offset? shape indices = some place) :
    buffer.get? indices = some (known place) := by
  rw [get?, filled.shaped, placed]
  exact filled.elements place (offset?_lt placed)

theorem get?_outside (outside : ¬ InBounds shape indices) : buffer.get? indices = none := by
  rw [get?, filled.shaped, offset?_eq_none outside]
  rfl

theorem write_outside (outside : ¬ InBounds shape indices) (value : Scalar) :
    buffer.write indices value = (false, buffer) := by
  simp [write, set?, filled.shaped, offset?_eq_none outside]

/-- A write in bounds changes what is known at its place. -/
theorem write_inside {place : Nat} (placed : offset? shape indices = some place)
    (value : Scalar) : (buffer.write indices value).1 = true ∧
      (buffer.write indices value).2.Filled shape (Function.update known place value) := by
  have written : buffer.write indices value = (true, buffer.put place value) := by
    simp [write, set?, filled.shaped, placed]
  rw [written]
  refine ⟨rfl, filled.shaped, by simp [put, filled.sized], fun other inside => ?_⟩
  have below : place < buffer.data.size := filled.sized ▸ offset?_lt placed
  by_cases same : other = place
  · subst same
    rw [Function.update_self]
    simp [put, below]
  · rw [Function.update_of_ne same, ← filled.elements other inside]
    exact Array.getElem?_setIfInBounds_ne (Ne.symm same)

/-- After any number of writes, a place has what was written to its tuple last. -/
theorem writes (values : List (List Int64 × Scalar)) :
    ∃ later, (buffer.writes values).Filled shape later ∧
      ∀ indices place, offset? shape indices = some place →
        later place = (values.reverse.lookup indices).getD (known place) := by
  induction values generalizing buffer known with
  | nil => exact ⟨known, filled, fun _ _ _ => rfl⟩
  | cons first rest ih =>
      obtain ⟨target, value⟩ := first
      by_cases inside : InBounds shape target
      · obtain ⟨goal, aimed⟩ := (offset?_isSome_iff shape target).mpr inside
        obtain ⟨later, result, given⟩ := ih (filled.write_inside aimed value).2
        refine ⟨later, result, fun indices place placed => ?_⟩
        rw [given indices place placed, List.reverse_cons, List.lookup_append, Option.getD_or]
        by_cases same : indices = target
        · subst same
          obtain rfl := Option.some.inj (aimed.symm.trans placed)
          simp
        · have apart : place ≠ goal := fun equal =>
            same (offset?_injective placed (equal ▸ aimed))
          simp [Function.update_of_ne apart, List.lookup_cons, beq_eq_false_iff_ne.mpr same]
      · have unchanged := filled.write_outside inside value
        obtain ⟨later, result, given⟩ := ih filled
        refine ⟨later, by rwa [Buffer.writes, List.foldl_cons, unchanged], ?_⟩
        intro indices place placed
        have different : indices ≠ target := by
          rintro rfl
          exact inside ((offset?_isSome_iff shape indices).mp ⟨place, placed⟩)
        rw [given indices place placed, List.reverse_cons, List.lookup_append, Option.getD_or]
        simp [List.lookup_cons, beq_eq_false_iff_ne.mpr different]

end Filled

/-- **Buffers are row-major arrays.** The tuples in bounds have the places below the number of
elements, one each and in lexicographic order. Whatever a buffer of the shape is made of and
whatever is written to it, it has an element at every place. At a tuple in bounds it gives what was
written there last, or else what it was made of; a write there changes what the buffer gives at this
tuple only. At any other tuple it gives nothing, and a write is refused and changes nothing. -/
theorem rowMajor_faithful (shape : List Nat) :
    RowMajor shape ∧
      ∀ (element : DType) (content : Content) (values : List (List Int64 × Scalar))
        (buffer : Buffer), buffer = (content.buffer shape element).writes values →
        buffer.shape = shape ∧ buffer.data.size = extentProduct shape ∧
          (∀ indices place, offset? shape indices = some place →
            buffer.get? indices =
                some ((values.reverse.lookup indices).getD (content.scalar element place)) ∧
              ∀ value, (buffer.write indices value).1 = true ∧
                (buffer.write indices value).2.get? indices = some value ∧
                ∀ other ≠ indices,
                  (buffer.write indices value).2.get? other = buffer.get? other) ∧
          ∀ indices, ¬ InBounds shape indices → buffer.get? indices = none ∧
            ∀ value, buffer.write indices value = (false, buffer) := by
  refine ⟨rowMajor shape, ?_⟩
  rintro element content values buffer rfl
  obtain ⟨later, filled, given⟩ := (content.filled shape element).writes values
  refine ⟨filled.shaped, filled.sized, fun indices place placed => ⟨?_, fun value => ?_⟩,
    fun indices outside => ⟨filled.get?_outside outside, filled.write_outside outside⟩⟩
  · rw [filled.get?_eq placed, given indices place placed]
  · obtain ⟨written, changed⟩ := filled.write_inside placed value
    refine ⟨written, by rw [changed.get?_eq placed, Function.update_self], fun other apart => ?_⟩
    by_cases inside : InBounds shape other
    · obtain ⟨elsewhere, found⟩ := (offset?_isSome_iff shape other).mpr inside
      have different : elsewhere ≠ place := fun equal =>
        apart (offset?_injective found (equal ▸ placed))
      rw [changed.get?_eq found, filled.get?_eq found, Function.update_of_ne different]
    · rw [changed.get?_outside inside, filled.get?_outside inside]

/-- Two rows of three bytes, of which four are given, and two writes in bounds behind one out of
bounds. -/
theorem bytes_faithful :
    (((Content.ints [1, 2, 3, 300]).buffer [2, 3] (.uint 8)).writes
        [([2, 0], .int 5), ([0, 1], .int 6), ([0, 1], .int 7)]).get? [0, 1] = some (.int 7) ∧
      (((Content.ints [1, 2, 3, 300]).buffer [2, 3] (.uint 8)).writes
        [([2, 0], .int 5), ([0, 1], .int 6), ([0, 1], .int 7)]).get? [1, 0] = some (.int 44) ∧
      (((Content.ints [1, 2, 3, 300]).buffer [2, 3] (.uint 8)).writes
        [([2, 0], .int 5), ([0, 1], .int 6), ([0, 1], .int 7)]).get? [1, -1] = none := by
  obtain ⟨-, buffers⟩ := rowMajor_faithful [2, 3]
  obtain ⟨-, -, inside, outside⟩ := buffers (.uint 8) (.ints [1, 2, 3, 300])
    [([2, 0], .int 5), ([0, 1], .int 6), ([0, 1], .int 7)] _ rfl
  refine ⟨(inside [0, 1] 1 (by decide)).1, ?_, (outside [1, -1] ?_).1⟩
  · exact (inside [1, 0] 3 (by decide)).1
  · rw [← offset?_isSome_iff]
    rintro ⟨place, placed⟩
    cases placed

end AffineKernel.Buffer
