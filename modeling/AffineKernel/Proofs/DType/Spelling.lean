import AffineKernel.DType.Text
import Mathlib.Data.List.Count
import Mathlib.Data.List.Induction
import Mathlib.Data.List.TakeDrop

/-!
# Reading types

A type is read from its spelling and from nothing else, but that the numerals in
the spelling may have zeros before them (`DType.Spelled`). What is spelled that
way and has a width of one at least, and no more bits after the point than bits,
is read if it is not too wide, and is refused for its width if it is;
every other text is refused as unrecognized (`DType.parse_reads_grammar`).

The statements follow the reader from the inside out: numerals
(`numeral?_eq_some_iff`), widths and pairs of a width and a fraction, and then the
kinds by the letters that they start with (`read?_eq_some_iff`).
-/

set_option autoImplicit false

namespace AffineKernel.DType

/-! ## Spellings -/

/-- A decimal numeral with zeros before it. -/
def padded (zeros number : Nat) : String := String.ofList (List.replicate zeros '0') ++ number.repr

/-- The spelling of a type with zeros before its first and second numeral. -/
def paddedText (zeros more : Nat) : DType → String
  | .int width => "int" ++ padded zeros width
  | .uint width => "uint" ++ padded zeros width
  | .fixed width fraction => "fixed" ++ padded zeros width ++ "_" ++ padded more fraction
  | .ufixed width fraction => "ufixed" ++ padded zeros width ++ "_" ++ padded more fraction
  | other => other.text

/-- A text spells a type, perhaps with extra zeros before the numerals. -/
def Spelled (dtype : DType) (spec : String) : Prop :=
  ∃ zeros more, spec = dtype.paddedText zeros more

/-- A type that a kernel may use. -/
def Usable (dtype : DType) : Prop :=
  0 < dtype.width ∧ dtype.width ≤ maxIntWidth ∧ dtype.fraction ≤ dtype.width

/-- An integer or fixed point type that only its width keeps from being used; the width can be told
in 32 bits. -/
def TooWide (dtype : DType) (width : Nat) : Prop :=
  dtype.width = width ∧ maxIntWidth < width ∧ width < 2 ^ 32 ∧ dtype.fraction ≤ width

instance (dtype : DType) : Decidable dtype.Usable := inferInstanceAs (Decidable (_ ∧ _ ∧ _))

instance (dtype : DType) (width : Nat) : Decidable (dtype.TooWide width) :=
  inferInstanceAs (Decidable (_ ∧ _ ∧ _ ∧ _))

/-- Without extra zeros, the spelling is the text of the type. -/
theorem paddedText_zero (dtype : DType) : dtype.paddedText 0 0 = dtype.text := by
  cases dtype <;> simp [paddedText, padded, text]

theorem toList_padded (zeros number : Nat) :
    (padded zeros number).toList = List.replicate zeros '0' ++ Nat.toDigits 10 number := by
  simp [padded]

/-! ## Numerals -/

/-- Every digit is the digit of a number below ten. -/
theorem digitChar_of_isDigit {digit : Char} (isDigit : digit.isDigit = true) :
    ∃ value < 10, digit = Nat.digitChar value := by
  have digits : ∀ value < 10, Char.ofNat (48 + value) = Nat.digitChar value := by decide
  simp only [Char.isDigit, Bool.and_eq_true, decide_eq_true_eq, ge_iff_le, UInt32.le_iff_toNat_le]
    at isDigit
  obtain ⟨low, high⟩ : 48 ≤ digit.toNat ∧ digit.toNat ≤ 57 := isDigit
  refine ⟨digit.toNat - 48, by omega, ?_⟩
  rw [← digits _ (by omega), Nat.add_sub_cancel' low, Char.ofNat_toNat]

/-- Digits are those of their value, with zeros before them. -/
theorem eq_padded_of_digits {digits : List Char} (nonempty : digits ≠ [])
    (all : digits.all Char.isDigit = true) :
    ∃ zeros, digits = (padded zeros (Nat.ofDigitChars 10 digits 0)).toList := by
  induction digits using List.reverseRecOn with
  | nil => exact absurd rfl nonempty
  | append_singleton digits last ih =>
      rw [List.all_append, Bool.and_eq_true] at all
      obtain ⟨value, small, rfl⟩ := digitChar_of_isDigit (by simpa using all.2)
      have total : Nat.ofDigitChars 10 (digits ++ [Nat.digitChar value]) 0 =
          10 * Nat.ofDigitChars 10 digits 0 + value := by
        rw [Nat.ofDigitChars_append, Nat.ofDigitChars_cons_digitChar_of_lt_ten small,
          Nat.ofDigitChars_nil]
      simp only [total, toList_padded] at ih ⊢
      by_cases none : digits = []
      · subst none
        exact ⟨0, by simp [Nat.toDigits_of_lt_base small]⟩
      · obtain ⟨zeros, split⟩ := ih none all.1
        generalize Nat.ofDigitChars 10 digits 0 = front at split
        subst split
        rcases Nat.eq_zero_or_pos front with rfl | positive
        · refine ⟨zeros + 1, ?_⟩
          simp [Nat.toDigits_of_lt_base small, List.replicate_succ']
        · refine ⟨zeros, ?_⟩
          rw [← Nat.toDigits_append_toDigits (by decide) positive small,
            Nat.toDigits_of_lt_base small, List.append_assoc]

/-- A numeral is read if its value can be told in 32 bits. -/
theorem numeral?_eq_some_iff {digits : List Char} {value : Nat} :
    numeral? digits = some value ↔ value < 2 ^ 32 ∧ ∃ zeros, digits = (padded zeros value).toList := by
  constructor
  · intro read
    unfold numeral? at read
    split at read
    · rename_i wellFormed
      obtain ⟨zeros, split⟩ := eq_padded_of_digits wellFormed.1 wellFormed.2
      dsimp only at read
      split at read
      · obtain rfl := Option.some.inj read
        exact ⟨‹_›, zeros, split⟩
      · cases read
    · cases read
  · rintro ⟨small, zeros, rfl⟩
    have nonempty : (padded zeros value).toList ≠ [] := by simp [toList_padded]
    have all : (padded zeros value).toList.all Char.isDigit = true := by
      rw [List.all_eq_true]
      intro digit member
      rw [toList_padded] at member
      rcases List.mem_append.mp member with zero | inside
      · rw [List.eq_of_mem_replicate zero]
        rfl
      · exact Nat.isDigit_of_mem_toDigits (by decide) (by decide) inside
    have total : Nat.ofDigitChars 10 (padded zeros value).toList 0 = value := by
      rw [toList_padded, Nat.ofDigitChars_append, Nat.ofDigitChars_replicate_zero,
        Nat.mul_zero, Nat.ofDigitChars_ten_toDigits]
    rw [numeral?, if_pos ⟨nonempty, all⟩, total]
    exact if_pos small

/-! ## Widths -/

theorem readWidth?_eq_some_iff {digits : List Char} {width : Nat} :
    readWidth? digits = some width ↔
      0 < width ∧ width < 2 ^ 32 ∧ ∃ zeros, digits = (padded zeros width).toList := by
  rw [readWidth?, Option.filter_eq_some_iff, numeral?_eq_some_iff, decide_eq_true_eq]
  exact and_comm

/-- No digit is an underscore. -/
theorem ne_underscore_of_mem_padded {zeros number : Nat} {char : Char}
    (member : char ∈ (padded zeros number).toList) : char ≠ '_' := by
  rintro rfl
  rw [toList_padded] at member
  rcases List.mem_append.mp member with zero | inside
  · exact absurd (List.eq_of_mem_replicate zero) (by decide)
  · exact Nat.underscore_not_in_toDigits inside

/-- A width and a fraction are parted by the first underscore. -/
theorem readFixed?_padded (zeros number : Nat) (right : List Char) :
    readFixed? ((padded zeros number).toList ++ '_' :: right) =
      (numeral? (padded zeros number).toList).bind fun width =>
        (numeral? right).bind fun fraction =>
          if 0 < width ∧ fraction ≤ width then some (width, fraction) else none := by
  have digits : ∀ char ∈ (padded zeros number).toList, decide (char ≠ '_') = true :=
    fun char member => decide_eq_true (ne_underscore_of_mem_padded member)
  rw [readFixed?, List.span_eq_takeWhile_dropWhile, List.takeWhile_append_of_pos digits,
    List.dropWhile_append_of_pos digits]
  simp

theorem readFixed?_eq_some_iff {digits : List Char} {width fraction : Nat} :
    readFixed? digits = some (width, fraction) ↔
      0 < width ∧ width < 2 ^ 32 ∧ fraction ≤ width ∧ ∃ zeros more,
        digits = (padded zeros width).toList ++ '_' :: (padded more fraction).toList := by
  constructor
  · intro read
    rw [readFixed?, List.span_eq_takeWhile_dropWhile] at read
    have joined : digits.takeWhile (· ≠ '_') ++ digits.dropWhile (· ≠ '_') = digits :=
      List.takeWhile_append_dropWhile
    have head := List.head?_dropWhile_not (· ≠ '_') digits
    cases behind : digits.dropWhile (· ≠ '_') with
    | nil =>
        rw [behind] at read
        cases read
    | cons mark right =>
        rw [behind] at read head joined
        obtain rfl : mark = '_' := by simpa using head
        simp only [Option.bind_eq_bind, Option.bind_eq_some_iff, Option.ite_none_right_eq_some,
          Option.some.injEq, Prod.mk.injEq] at read
        obtain ⟨_, first, _, second, ⟨positive, bounded⟩, rfl, rfl⟩ := read
        obtain ⟨small, zeros, left⟩ := numeral?_eq_some_iff.mp first
        obtain ⟨-, more, rfl⟩ := numeral?_eq_some_iff.mp second
        exact ⟨positive, small, bounded, zeros, more, by rw [← left, joined]⟩
  · rintro ⟨positive, small, bounded, zeros, more, rfl⟩
    have first : numeral? (padded zeros width).toList = some width :=
      numeral?_eq_some_iff.mpr ⟨small, zeros, rfl⟩
    have second : numeral? (padded more fraction).toList = some fraction :=
      numeral?_eq_some_iff.mpr ⟨Nat.lt_of_le_of_lt bounded small, more, rfl⟩
    simp [readFixed?_padded, first, second, positive, bounded]

/-! ## Types -/

/-- The letters at the beginning of a text decide what is read after them. -/
theorem read?_int (rest : List Char) :
    read? ("int".toList ++ rest) = (readWidth? rest).map .int := by
  simp [read?, List.isPrefixOf?]

theorem read?_uint (rest : List Char) :
    read? ("uint".toList ++ rest) = (readWidth? rest).map .uint := by
  simp [read?, List.isPrefixOf?]

theorem read?_fixed (rest : List Char) :
    read? ("fixed".toList ++ rest) =
      (readFixed? rest).map fun parts => .fixed parts.1 parts.2 := by
  simp [read?, List.isPrefixOf?]

theorem read?_ufixed (rest : List Char) :
    read? ("ufixed".toList ++ rest) =
      (readFixed? rest).map fun parts => .ufixed parts.1 parts.2 := by
  simp [read?, List.isPrefixOf?]

/-- What is read starts with the letters of its kind, or is a word of its own. -/
theorem read?_cases {spec : List Char} {dtype : DType} (read : read? spec = some dtype) :
    (∃ rest, spec = "int".toList ++ rest) ∨ (∃ rest, spec = "uint".toList ++ rest) ∨
      (∃ rest, spec = "fixed".toList ++ rest) ∨ (∃ rest, spec = "ufixed".toList ++ rest) ∨
      spec = dtype.text.toList ∧ dtype.isFixed = false ∧ dtype.isInt = false := by
  unfold read? at read
  split at read
  · obtain rfl := Option.some.inj read
    exact .inr (.inr (.inr (.inr ⟨‹_›, rfl, rfl⟩)))
  split at read
  · exact .inr (.inl ⟨_, (List.append_eq_of_isPrefixOf?_eq_some ‹_›).symm⟩)
  split at read
  · exact .inl ⟨_, (List.append_eq_of_isPrefixOf?_eq_some ‹_›).symm⟩
  split at read
  · exact .inr (.inr (.inr (.inl ⟨_, (List.append_eq_of_isPrefixOf?_eq_some ‹_›).symm⟩)))
  split at read
  · exact .inr (.inr (.inl ⟨_, (List.append_eq_of_isPrefixOf?_eq_some ‹_›).symm⟩))
  refine .inr (.inr (.inr (.inr ?_)))
  split at read
  · obtain rfl := Option.some.inj read
    exact ⟨‹_›, rfl, rfl⟩
  split at read
  · obtain rfl := Option.some.inj read
    exact ⟨‹_›, rfl, rfl⟩
  split at read
  · obtain rfl := Option.some.inj read
    exact ⟨‹_›, rfl, rfl⟩
  · cases read

/-- A text that is spelled like a type is read, if the widths of the type fit together. -/
theorem read?_eq_some_iff {spec : String} {dtype : DType} :
    read? spec.toList = some dtype ↔
      0 < dtype.width ∧ dtype.width < 2 ^ 32 ∧ dtype.fraction ≤ dtype.width ∧
        dtype.Spelled spec := by
  constructor
  · intro read
    rcases read?_cases read with ⟨rest, same⟩ | ⟨rest, same⟩ | ⟨rest, same⟩ | ⟨rest, same⟩ |
      ⟨same, notFixed, notInt⟩
    · rw [same, read?_int] at read
      obtain ⟨width, digits, rfl⟩ := Option.map_eq_some_iff.mp read
      obtain ⟨positive, small, zeros, rfl⟩ := readWidth?_eq_some_iff.mp digits
      exact ⟨positive, small, Nat.zero_le _, zeros, 0,
        String.toList_inj.mp (by rw [same, paddedText, String.toList_append])⟩
    · rw [same, read?_uint] at read
      obtain ⟨width, digits, rfl⟩ := Option.map_eq_some_iff.mp read
      obtain ⟨positive, small, zeros, rfl⟩ := readWidth?_eq_some_iff.mp digits
      exact ⟨positive, small, Nat.zero_le _, zeros, 0,
        String.toList_inj.mp (by rw [same, paddedText, String.toList_append])⟩
    · rw [same, read?_fixed] at read
      obtain ⟨⟨width, fraction⟩, digits, rfl⟩ := Option.map_eq_some_iff.mp read
      obtain ⟨positive, small, bounded, zeros, more, rfl⟩ := readFixed?_eq_some_iff.mp digits
      exact ⟨positive, small, bounded, zeros, more,
        String.toList_inj.mp (by simp [same, paddedText])⟩
    · rw [same, read?_ufixed] at read
      obtain ⟨⟨width, fraction⟩, digits, rfl⟩ := Option.map_eq_some_iff.mp read
      obtain ⟨positive, small, bounded, zeros, more, rfl⟩ := readFixed?_eq_some_iff.mp digits
      exact ⟨positive, small, bounded, zeros, more,
        String.toList_inj.mp (by simp [same, paddedText])⟩
    · have spelled : dtype.Spelled spec :=
        ⟨0, 0, (String.toList_inj.mp same).trans (paddedText_zero dtype).symm⟩
      cases dtype with
      | int | uint => cases notInt
      | fixed | ufixed => cases notFixed
      | index | float16 | float32 | float64 => exact ⟨by decide, by decide, by decide, spelled⟩
  · rintro ⟨positive, small, bounded, zeros, more, rfl⟩
    have digits : readWidth? (padded zeros dtype.width).toList = some dtype.width :=
      readWidth?_eq_some_iff.mpr ⟨positive, small, zeros, rfl⟩
    have parts : readFixed? ((padded zeros dtype.width).toList ++
        '_' :: (padded more dtype.fraction).toList) = some (dtype.width, dtype.fraction) :=
      readFixed?_eq_some_iff.mpr ⟨positive, small, bounded, zeros, more, rfl⟩
    cases dtype with
    | int width =>
        rw [paddedText, String.toList_append, read?_int]
        exact congrArg (Option.map DType.int) digits
    | uint width =>
        rw [paddedText, String.toList_append, read?_uint]
        exact congrArg (Option.map DType.uint) digits
    | fixed width fraction =>
        have letters : (paddedText zeros more (fixed width fraction)).toList = "fixed".toList ++
            ((padded zeros width).toList ++ '_' :: (padded more fraction).toList) := by
          simp [paddedText]
        rw [letters, read?_fixed]
        exact congrArg (Option.map _) parts
    | ufixed width fraction =>
        have letters : (paddedText zeros more (ufixed width fraction)).toList = "ufixed".toList ++
            ((padded zeros width).toList ++ '_' :: (padded more fraction).toList) := by
          simp [paddedText]
        rw [letters, read?_ufixed]
        exact congrArg (Option.map _) parts
    | index | float16 | float32 | float64 => simp [paddedText, text, read?, List.isPrefixOf?]

/-! ## The grammar -/

theorem parse_of_read {spec : String} {dtype : DType} (read : read? spec.toList = some dtype) :
    parse spec =
      if dtype.width ≤ maxIntWidth then .ok dtype else .error (.unsupportedWidth dtype.width) := by
  simp only [parse, read, checked, checkWidth]
  split <;> rfl

theorem parse_of_not_read {spec : String} (unread : read? spec.toList = none) :
    parse spec = .error (.unrecognized spec) := by
  simp only [parse, unread]

theorem usable_and_spelled_iff {spec : String} {dtype : DType} :
    dtype.Usable ∧ dtype.Spelled spec ↔
      read? spec.toList = some dtype ∧ dtype.width ≤ maxIntWidth := by
  rw [read?_eq_some_iff, Usable]
  constructor
  · rintro ⟨⟨positive, narrow, bounded⟩, spelled⟩
    exact ⟨⟨positive, Nat.lt_of_le_of_lt narrow (by decide), bounded, spelled⟩, narrow⟩
  · rintro ⟨⟨positive, -, bounded, spelled⟩, narrow⟩
    exact ⟨⟨positive, narrow, bounded⟩, spelled⟩

theorem tooWide_and_spelled_iff {spec : String} {dtype : DType} {width : Nat} :
    dtype.TooWide width ∧ dtype.Spelled spec ↔
      read? spec.toList = some dtype ∧ dtype.width = width ∧ maxIntWidth < width := by
  rw [read?_eq_some_iff, TooWide]
  constructor
  · rintro ⟨⟨rfl, wide, small, bounded⟩, spelled⟩
    exact ⟨⟨Nat.zero_lt_of_lt wide, small, bounded, spelled⟩, rfl, wide⟩
  · rintro ⟨⟨-, small, bounded, spelled⟩, rfl, wide⟩
    exact ⟨⟨rfl, wide, small, bounded⟩, spelled⟩

/-- What is read is the usable types by their spellings, with zeros before the numerals. A type that
is only too wide is refused for its width, and everything else as unrecognized. In particular the
text of every usable type is read back. -/
theorem parse_reads_grammar (spec : String) :
    (∀ dtype, parse spec = .ok dtype ↔ dtype.Usable ∧ dtype.Spelled spec) ∧
      (∀ width, parse spec = .error (.unsupportedWidth width) ↔
        ∃ dtype : DType, dtype.TooWide width ∧ dtype.Spelled spec) ∧
      (∀ other, parse spec = .error (.unrecognized other) ↔
        other = spec ∧ (¬ ∃ dtype : DType, dtype.Usable ∧ dtype.Spelled spec) ∧
          ¬ ∃ (width : Nat) (dtype : DType), dtype.TooWide width ∧ dtype.Spelled spec) ∧
      ∀ dtype : DType, dtype.Usable → parse dtype.text = .ok dtype := by
  have readBack : ∀ dtype : DType, dtype.Usable → parse dtype.text = .ok dtype := by
    intro dtype usable
    obtain ⟨read, narrow⟩ :=
      usable_and_spelled_iff.mp ⟨usable, 0, 0, (paddedText_zero dtype).symm⟩
    rw [parse_of_read read, if_pos narrow]
  simp only [usable_and_spelled_iff, tooWide_and_spelled_iff]
  cases read : read? spec.toList with
  | none =>
      rw [parse_of_not_read read]
      refine ⟨by simp, by simp, fun other => ?_, readBack⟩
      simp [eq_comm]
  | some named =>
      rw [parse_of_read read]
      by_cases narrow : named.width ≤ maxIntWidth
      · rw [if_pos narrow]
        refine ⟨fun dtype => ?_, fun width => ?_, fun other => ?_, readBack⟩
        · simp only [Except.ok.injEq, Option.some.injEq]
          exact ⟨fun same => ⟨same, same ▸ narrow⟩, And.left⟩
        · refine ⟨nofun, ?_⟩
          rintro ⟨_, same, rfl, wide⟩
          obtain rfl := Option.some.inj same
          exact absurd narrow (Nat.not_le_of_lt wide)
        · refine ⟨nofun, ?_⟩
          rintro ⟨-, unusable, -⟩
          exact absurd ⟨named, rfl, narrow⟩ unusable
      · rw [if_neg narrow]
        refine ⟨fun dtype => ?_, fun width => ?_, fun other => ?_, readBack⟩
        · refine ⟨nofun, ?_⟩
          rintro ⟨same, fits⟩
          obtain rfl := Option.some.inj same
          exact absurd fits narrow
        · simp only [Except.error.injEq, DTypeError.unsupportedWidth.injEq]
          constructor
          · rintro rfl
            exact ⟨named, rfl, rfl, Nat.lt_of_not_le narrow⟩
          · rintro ⟨_, same, rfl, -⟩
            rw [Option.some.inj same]
        · refine ⟨nofun, ?_⟩
          rintro ⟨-, -, notWide⟩
          exact absurd ⟨named.width, named, rfl, rfl, Nat.lt_of_not_le narrow⟩ notWide

theorem parse_leadingZeros :
    parse "ufixed012_04" = .ok (.ufixed 12 4) ∧
      parse "fixed0100_100" = .error (.unsupportedWidth 100) ∧
      parse (text (.fixed 8 8)) = .ok (.fixed 8 8) :=
  ⟨((parse_reads_grammar _).1 _).mpr ⟨by decide, 1, 1, by cbv⟩,
    ((parse_reads_grammar _).2.1 _).mpr ⟨.fixed 100 100, by decide, 1, 0, by cbv⟩,
    (parse_reads_grammar "").2.2.2 _ (by decide)⟩

end AffineKernel.DType
