import AffineKernel.Text.Escape

/-!
# Quoted text

A text stands between double quotes. Quotes, backslashes, line ends, tabs and
the zero character have two-character escapes; every other character without a
visible form of its own is written by its code point in braces, in hexadecimal
without leading zeros; all else stands for itself.

Lists are written between brackets, with a comma and a blank between items.
-/

set_option autoImplicit false

namespace AffineKernel.Text

/-- Whether a character is written by its code point. -/
def needsCodePoint (c : Char) : Bool :=
  let code := c.toNat
  if code < 128 then code < 32 || code == 127 else isEscapedCode code

/-- How one character is written inside quotes. -/
def escape (c : Char) : List Char :=
  match c.toNat with
  | 0x00 => ['\\', '0']
  | 0x09 => ['\\', 't']
  | 0x0a => ['\\', 'n']
  | 0x0d => ['\\', 'r']
  | 0x22 => ['\\', c]
  | 0x5c => ['\\', c]
  | code =>
    if needsCodePoint c then
      ['\\', 'u', '\x7b'] ++ Nat.toDigits 16 code ++ ['\x7d']
    else [c]

/-- A text between double quotes, with its characters escaped. -/
def quoted (text : String) : String :=
  "\"" ++ String.ofList (text.toList.flatMap escape) ++ "\""

/-- Items between brackets, separated by a comma and a blank. -/
def bracketed (items : List String) : String :=
  "[" ++ String.intercalate ", " items ++ "]"

/-- Items between parentheses, separated by a comma and a blank. -/
def parenthesized (items : List String) : String :=
  "(" ++ String.intercalate ", " items ++ ")"

end AffineKernel.Text
