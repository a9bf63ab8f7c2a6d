/-! # Characters of JavaScript sources -/

namespace OverrideElision.JavaScript

/-- A character that ends a line of code. -/
def isLineEnd (c : Char) : Bool :=
  c == '\n' || c == '\r' || c.toNat == 0x2028 || c.toNat == 0x2029

/-- A character between tokens that means nothing: blanks, line ends, the space separators of
Unicode, and the marks without width. -/
def isSpace (c : Char) : Bool :=
  let n := c.toNat
  (9 ≤ n && n ≤ 13) || n == 32 || n == 0xA0 || n == 0x1680 || (0x2000 ≤ n && n ≤ 0x200B) ||
    n == 0x2028 || n == 0x2029 || n == 0x202F || n == 0x205F || n == 0x2060 || n == 0x3000 ||
    n == 0xFEFF

/-- A character of an identifier: in ASCII a letter, a digit, `_` or `$`, beyond it any character
that is not a space. -/
def isNameChar (c : Char) : Bool :=
  if c.toNat < 128 then c.isAlphanum || c == '_' || c == '$' else !isSpace c

/-- A character that an identifier starts with. -/
def isNameStart (c : Char) : Bool :=
  isNameChar c && !c.isDigit

/-- The bytes that a text takes in a source. -/
def byteCount : List Char → Nat
  | [] => 0
  | c :: rest => c.utf8Size + byteCount rest

end OverrideElision.JavaScript
