import OverrideElision.Text.Printable

/-! # Quoted text

A text in quotes as messages show it: single quotes, or double quotes when the text holds a single
quote and no double one. The chosen quote and the backslash are escaped, the usual control
characters have short escapes, and any other character that cannot be printed is written by its code
in the shortest of three hexadecimal widths. -/

namespace OverrideElision.Text

/-- The digits of `n` in hexadecimal, at least `width` of them. -/
def hexDigits (width n : Nat) : List Char :=
  let digits := Nat.toDigits 16 n
  List.replicate (width - digits.length) '0' ++ digits

/-- The quote that a text is put in. -/
def quoteFor (text : List Char) : Char :=
  if text.contains '\'' && !text.contains '"' then '"' else '\''

/-- One character as it stands between the quotes `quote`. -/
def quotedChar (quote c : Char) : List Char :=
  if c == quote || c == '\\' then ['\\', c]
  else if c == '\t' then ['\\', 't']
  else if c == '\n' then ['\\', 'n']
  else if c == '\r' then ['\\', 'r']
  else if isPrintable c then [c]
  else if c.toNat < 0x100 then '\\' :: 'x' :: hexDigits 2 c.toNat
  else if c.toNat < 0x10000 then '\\' :: 'u' :: hexDigits 4 c.toNat
  else '\\' :: 'U' :: hexDigits 8 c.toNat

/-- The text in quotes. -/
def quoted (text : String) : String :=
  let chars := text.toList
  let quote := quoteFor chars
  String.ofList (quote :: chars.flatMap (quotedChar quote) ++ [quote])

end OverrideElision.Text
