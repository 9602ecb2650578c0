/-!
# Blanks

The blanks are the characters with the white space property: the space, the
controls from tab to carriage return, the next-line control, the no-break
space, the Ogham space mark, the typographic spaces, the line and paragraph
separators and the ideographic space.
-/

set_option autoImplicit false

namespace AffineKernel.Text

/-- Closed ranges of the code points of blanks. -/
def blankRanges : List (Nat × Nat) := [
  (0x9, 0xd), (0x20, 0x20), (0x85, 0x85), (0xa0, 0xa0), (0x1680, 0x1680), (0x2000, 0x200a),
  (0x2028, 0x2029), (0x202f, 0x202f), (0x205f, 0x205f), (0x3000, 0x3000)]

/-- Whether a character is a blank. -/
def isBlank (c : Char) : Bool :=
  blankRanges.any (fun range => range.1 ≤ c.toNat && c.toNat ≤ range.2)

/-- The text without the blanks at its two ends. -/
def trimBlanks (text : List Char) : List Char :=
  ((text.dropWhile isBlank).reverse.dropWhile isBlank).reverse

end AffineKernel.Text
