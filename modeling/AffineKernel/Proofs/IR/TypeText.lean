import AffineKernel.IR.Attribute
import Mathlib.Data.List.TakeDrop

/-!
# The text of a type

The text of a type determines the type (`ValueType.text_inj`), though nothing in
it is escaped: extents and widths are written one after the other, and the
spellings of elements hold digits, commas and angle brackets of their own.

A text is read from the left. A numeral ends where the digits end, so what
follows it is told apart from it as long as that starts with no digit
(`toDigits_append_inj`). No spelling of a data type starts with a digit; so the
extents of a shape end where the spelling of the elements begins
(`extents_append_inj`). A spelling may end in a numeral, so the same condition is
put on what follows it (`DType.irText_append_inj`).
-/

set_option autoImplicit false

namespace AffineKernel

/-! ## Numerals -/

/-- A text that continues no numeral. -/
def StartsWithNoDigit (rest : List Char) : Prop := ∀ char ∈ rest.head?, char.isDigit = false

theorem startsWithNoDigit_nil : StartsWithNoDigit [] := nofun

theorem startsWithNoDigit_cons {char : Char} (other : char.isDigit = false) (rest : List Char) :
    StartsWithNoDigit (char :: rest) := by simpa [StartsWithNoDigit] using other

theorem takeWhile_toDigits_append (number : Nat) {rest : List Char}
    (separate : StartsWithNoDigit rest) :
    (Nat.toDigits 10 number ++ rest).takeWhile Char.isDigit = Nat.toDigits 10 number := by
  have digits : ∀ char ∈ Nat.toDigits 10 number, char.isDigit = true := fun _ member =>
    Nat.isDigit_of_mem_toDigits (by decide) (by decide) member
  have behind : rest.takeWhile Char.isDigit = [] := by
    cases rest with
    | nil => rfl
    | cons char _ => exact List.takeWhile_cons_of_neg (by simp [separate char rfl])
  rw [List.takeWhile_append_of_pos digits, behind, List.append_nil]

/-- A numeral and what follows it are told apart. -/
theorem toDigits_append_inj {first second : Nat} {rest more : List Char}
    (ends : StartsWithNoDigit rest) (stops : StartsWithNoDigit more) :
    Nat.toDigits 10 first ++ rest = Nat.toDigits 10 second ++ more ↔
      first = second ∧ rest = more := by
  refine ⟨fun same => ?_, by rintro ⟨rfl, rfl⟩; rfl⟩
  have digits : Nat.toDigits 10 first = Nat.toDigits 10 second := by
    rw [← takeWhile_toDigits_append first ends, same, takeWhile_toDigits_append second stops]
  have number : first = second := by
    rw [← Nat.ofDigitChars_ten_toDigits (n := first), digits, Nat.ofDigitChars_ten_toDigits]
  rw [digits] at same
  exact ⟨number, List.append_cancel_left same⟩

/-- A numeral starts with a digit. -/
theorem toDigits_append_ne {number : Nat} {rest more : List Char}
    (other : StartsWithNoDigit more) : Nat.toDigits 10 number ++ rest ≠ more := by
  rintro rfl
  cases digits : Nat.toDigits 10 number with
  | nil => exact Nat.toDigits_ne_nil digits
  | cons char others =>
      have digit : char.isDigit = true :=
        Nat.isDigit_of_mem_toDigits (by decide) (by decide) (digits ▸ List.mem_cons_self)
      have letter : char.isDigit = false := other char (by rw [digits]; rfl)
      rw [digit] at letter
      cases letter

/-! ## Data types -/

namespace DType

/-- What follows the letters of a fixed point type. -/
def fixedPart (width fraction : Nat) : List Char :=
  Nat.toDigits 10 width ++ ',' :: ' ' :: (Nat.toDigits 10 fraction ++ ['>'])

/-- The letters and signs of a spelling, and the numerals between them. -/
theorem toList_irText (dtype : DType) :
    dtype.irText.toList =
      match dtype with
      | .int width => 'i' :: Nat.toDigits 10 width
      | .uint width => 'u' :: 'i' :: Nat.toDigits 10 width
      | .index => "index".toList
      | .fixed width fraction => "!kiln.fixed<".toList ++ fixedPart width fraction
      | .ufixed width fraction => "!kiln.ufixed<".toList ++ fixedPart width fraction
      | .float16 => "f16".toList
      | .float32 => "f32".toList
      | .float64 => "f64".toList := by
  have integer (letters : String) (width : Nat) :
      (letters ++ width.repr).toList = letters.toList ++ Nat.toDigits 10 width := by simp
  have point (letters : String) (width fraction : Nat) :
      (letters ++ width.repr ++ ", " ++ fraction.repr ++ ">").toList =
        letters.toList ++ fixedPart width fraction := by simp [fixedPart]
  cases dtype with
  | int width => exact integer "i" width
  | uint width => exact integer "ui" width
  | fixed width fraction => exact point "!kiln.fixed<" width fraction
  | ufixed width fraction => exact point "!kiln.ufixed<" width fraction
  | index | float16 | float32 | float64 => rfl

theorem irText_startsWithNoDigit (dtype : DType) (rest : List Char) :
    StartsWithNoDigit (dtype.irText.toList ++ rest) := by
  rw [toList_irText]
  cases dtype <;> exact startsWithNoDigit_cons rfl _

/-- The spelling of a data type and what follows it are told apart. -/
theorem irText_append_inj {first second : DType} {rest more : List Char}
    (ends : StartsWithNoDigit rest) (stops : StartsWithNoDigit more) :
    first.irText.toList ++ rest = second.irText.toList ++ more ↔
      first = second ∧ rest = more := by
  have comma (chars : List Char) := startsWithNoDigit_cons (show ','.isDigit = false by rfl) chars
  have closing (chars : List Char) := startsWithNoDigit_cons (show '>'.isDigit = false by rfl) chars
  -- The letters of two kinds part before any numeral, but that those of signed integers end where
  -- the word `index` goes on.
  have differs {number : Nat} {left right : List Char} :
      Nat.toDigits 10 number ++ left ≠ 'n' :: right :=
    toDigits_append_ne (startsWithNoDigit_cons rfl right)
  rw [toList_irText, toList_irText]
  cases first <;> cases second <;>
    simp [fixedPart, toDigits_append_inj ends stops, toDigits_append_inj (comma _) (comma _),
      toDigits_append_inj (closing _) (closing _), differs, differs.symm, and_assoc]

end DType

/-! ## Shapes -/

namespace ValueType

/-- The text of a shape: each extent with a mark behind it. -/
def extents (shape : List Nat) : List Char :=
  shape.flatMap fun extent => extent.repr.toList ++ ['x']

theorem extents_cons_append (extent : Nat) (shape : List Nat) (rest : List Char) :
    extents (extent :: shape) ++ rest =
      Nat.toDigits 10 extent ++ 'x' :: (extents shape ++ rest) := by
  simp [extents]

/-- A shape and what follows it are told apart. -/
theorem extents_append_inj {first second : List Nat} {rest more : List Char}
    (ends : StartsWithNoDigit rest) (stops : StartsWithNoDigit more) :
    extents first ++ rest = extents second ++ more ↔ first = second ∧ rest = more := by
  induction first generalizing second with
  | nil =>
      cases second with
      | nil => simp [extents]
      | cons extent shape =>
          rw [extents_cons_append]
          simpa [extents] using (toDigits_append_ne ends).symm
  | cons extent shape ih =>
      cases second with
      | nil =>
          rw [extents_cons_append]
          simpa [extents] using toDigits_append_ne stops
      | cons other shapes =>
          have mark (chars : List Char) :=
            startsWithNoDigit_cons (show 'x'.isDigit = false by rfl) chars
          rw [extents_cons_append, extents_cons_append, toDigits_append_inj (mark _) (mark _),
            List.cons_inj_right, ih, List.cons.injEq, and_assoc]

/-! ## Types -/

theorem toList_text_memref (shape : List Nat) (element : DType) :
    (memref shape element).text.toList =
      "memref<".toList ++ (extents shape ++ (element.irText.toList ++ ['>'])) := by
  simp [text, extents, String.toList_join, List.flatMap_map]

/-- No data type is spelled like a buffer. -/
theorem irText_ne_text_memref (dtype : DType) (shape : List Nat) (element : DType) :
    dtype.irText ≠ (memref shape element).text := by
  intro same
  have chars := congrArg String.toList same
  rw [toList_text_memref, DType.toList_irText] at chars
  cases dtype <;> simp at chars

/-- The text of a type determines the type. -/
theorem text_inj (first second : ValueType) : first.text = second.text ↔ first = second := by
  cases first with
  | scalar dtype =>
      cases second with
      | scalar other =>
          have spelled : dtype.irText.toList ++ [] = other.irText.toList ++ [] ↔ _ :=
            DType.irText_append_inj startsWithNoDigit_nil startsWithNoDigit_nil
          simpa [text, String.toList_inj] using spelled
      | memref shape element =>
          exact iff_of_false (irText_ne_text_memref dtype shape element) nofun
  | memref shape element =>
      cases second with
      | scalar dtype =>
          exact iff_of_false (irText_ne_text_memref dtype shape element).symm nofun
      | memref shapes other =>
          have closing : StartsWithNoDigit ['>'] := startsWithNoDigit_cons rfl []
          calc (memref shape element).text = (memref shapes other).text
            _ ↔ extents shape ++ (element.irText.toList ++ ['>']) =
                  extents shapes ++ (other.irText.toList ++ ['>']) := by
                rw [← String.toList_inj, toList_text_memref, toList_text_memref,
                  List.append_cancel_left_eq]
            _ ↔ shape = shapes ∧ element = other ∧ ['>'] = ['>'] := by
                rw [extents_append_inj (element.irText_startsWithNoDigit _)
                  (other.irText_startsWithNoDigit _), DType.irText_append_inj closing closing]
            _ ↔ memref shape element = memref shapes other := by simp

example : (memref [] (.fixed 8 4)).text = "memref<!kiln.fixed<8, 4>>" ∧
    (memref [12, 1] (.int 1)).text = "memref<12x1xi1>" := by decide +kernel

end ValueType

end AffineKernel
