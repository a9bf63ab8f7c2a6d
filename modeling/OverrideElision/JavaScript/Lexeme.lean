import OverrideElision.JavaScript.Character

/-! # Tokens

The next token of a source, with the comments and line ends before it. A slash is read as an
operator here; where an operand is expected the reader of expressions reads a regular expression
from the same place. A backquote opens a template and is a token of its own. -/

namespace OverrideElision.JavaScript

/-- A token. Of numbers and strings nothing but their extent matters. -/
inductive Token where
  | word (text : String)
  | privateName
  | number
  | string
  | mark (text : String)
  | backquote
  | finish
  | unreadable
deriving DecidableEq, Repr

/-- A place in a source: the text from there on, and the bytes before it. -/
structure Cursor where
  rest : List Char
  offset : Nat

/-- The place after a text that the source goes on with. -/
def Cursor.after (cursor : Cursor) (taken rest : List Char) : Cursor :=
  ⟨rest, cursor.offset + byteCount taken⟩

/-- What stands between two tokens: whether a line ends there, the spans of the comments, and the
place of the next token. No place when a comment is not closed. -/
structure Gap where
  newline : Bool
  comments : List (Nat × Nat)
  next : Option Cursor

/-- What the characters read last are part of: code, or a comment that starts at a byte. -/
inductive GapMode where
  | code
  | line (start : Nat)
  | block (start : Nat)

/-- Reads on through a gap. The comments found so far are in reverse order. -/
def gapFrom (newline : Bool) (comments : List (Nat × Nat)) :
    GapMode → Nat → List Char → Gap
  | .code, offset, [] => ⟨newline, comments.reverse, some ⟨[], offset⟩⟩
  | .line start, offset, [] => ⟨newline, ((start, offset) :: comments).reverse, some ⟨[], offset⟩⟩
  | .block _, _, [] => ⟨newline, comments.reverse, none⟩
  | .code, offset, '/' :: '/' :: rest => gapFrom newline comments (.line offset) (offset + 2) rest
  | .code, offset, '/' :: '*' :: rest => gapFrom newline comments (.block offset) (offset + 2) rest
  | .block start, offset, '*' :: '/' :: rest =>
    gapFrom newline ((start, offset + 2) :: comments) .code (offset + 2) rest
  | .code, offset, c :: rest =>
    if isSpace c then gapFrom (newline || isLineEnd c) comments .code (offset + c.utf8Size) rest
    else ⟨newline, comments.reverse, some ⟨c :: rest, offset⟩⟩
  | .line start, offset, c :: rest =>
    if isLineEnd c then gapFrom true ((start, offset) :: comments) .code (offset + c.utf8Size) rest
    else gapFrom newline comments (.line start) (offset + c.utf8Size) rest
  | .block start, offset, c :: rest =>
    gapFrom (newline || isLineEnd c) comments (.block start) (offset + c.utf8Size) rest

/-- What stands before the next token. -/
def Cursor.gap (cursor : Cursor) : Gap :=
  gapFrom false [] .code cursor.offset cursor.rest

/-- A name at the start of a text, escapes included, and the text after it. `braced` says that the
text starts inside an escape of the form `\u` with braces. -/
def takeName (braced : Bool) : List Char → List Char × List Char
  | [] => ([], [])
  | '\\' :: 'u' :: '{' :: rest =>
    let (name, after) := takeName true rest
    ('\\' :: 'u' :: '{' :: name, after)
  | c :: rest =>
    if braced then
      let (name, after) := takeName (c != '}') rest
      (c :: name, after)
    else if isNameChar c || c == '\\' then
      let (name, after) := takeName false rest
      (c :: name, after)
    else ([], c :: rest)

/-- A digit or a separator between digits. -/
def isDigitOrSeparator (c : Char) : Bool := c.isDigit || c == '_'

/-- The exponent of a number at the start of a text, if there is one, and the text after it. -/
def takeExponent (text : List Char) : List Char × List Char :=
  match text with
  | e :: rest =>
    if e == 'e' || e == 'E' then
      match rest with
      | sign :: digits =>
        if sign == '+' || sign == '-' then
          (e :: sign :: digits.takeWhile isDigitOrSeparator, digits.dropWhile isDigitOrSeparator)
        else (e :: rest.takeWhile isDigitOrSeparator, rest.dropWhile isDigitOrSeparator)
      | [] => ([e], [])
    else ([], text)
  | [] => ([], [])

/-- Octal digits after a zero. A number of this form has no fraction. -/
def isOctalAfterZero (digits : List Char) : Bool :=
  match digits with
  | '0' :: d :: rest => (d :: rest).all fun c => c.isDigit && c ≤ '7'
  | _ => false

/-- A number at the start of a text, and the text after it. -/
def takeNumber (text : List Char) : List Char × List Char :=
  match text with
  | '0' :: radix :: rest =>
    if radix.isAlpha && radix != 'e' && radix != 'E' && radix != 'n' then
      ('0' :: radix :: rest.takeWhile isNameChar, rest.dropWhile isNameChar)
    else decimal text
  | _ => decimal text
where
  decimal (text : List Char) : List Char × List Char :=
    let whole := text.takeWhile isDigitOrSeparator
    let afterWhole := text.dropWhile isDigitOrSeparator
    let (fraction, afterFraction) :=
      match afterWhole with
      | '.' :: digits =>
        if isOctalAfterZero whole then ([], afterWhole)
        else ('.' :: digits.takeWhile isDigitOrSeparator, digits.dropWhile isDigitOrSeparator)
      | _ => ([], afterWhole)
    let (exponent, afterExponent) := takeExponent afterFraction
    let suffix := afterExponent.takeWhile (· == 'n')
    (whole ++ fraction ++ exponent ++ suffix, afterExponent.dropWhile (· == 'n'))

/-- A string up to its closing quote, which is included, and the text after it. -/
def takeString (quote : Char) : List Char → Option (List Char × List Char)
  | [] => none
  | '\\' :: c :: rest => (takeString quote rest).map fun (s, after) => ('\\' :: c :: s, after)
  | c :: rest =>
    if c == quote then some ([c], rest)
    else (takeString quote rest).map fun (s, after) => (c :: s, after)

/-- A regular expression up to its closing slash, which is included, and the text after it.
`inClass` says that the text starts inside brackets, where a slash does not close. -/
def takePattern (inClass : Bool) : List Char → Option (List Char × List Char)
  | [] => none
  | '\\' :: c :: rest => (takePattern inClass rest).map fun (s, after) => ('\\' :: c :: s, after)
  | c :: rest =>
    if c == '/' && !inClass then some ([c], rest)
    else
      (takePattern (c == '[' || (inClass && c != ']')) rest).map fun (s, after) => (c :: s, after)

/-- The operators and marks of punctuation, a longer one before any that it starts with. -/
def marks : List String := [
  ">>>=", "...", "===", "!==", "**=", "<<=", ">>=", ">>>", "&&=", "||=", "??=", "=>", "==", "!=",
  "<=", ">=", "&&", "||", "??", "?.", "++", "--", "+=", "-=", "*=", "/=", "%=", "&=", "|=", "^=",
  "<<", ">>", "**", "\x7b", "\x7d", "(", ")", "[", "]", ";", ",", "<", ">", "+", "-", "*", "/", "%",
  "&", "|", "^", "!", "~", "?", ":", "=", ".", "@"]

/-- The mark at the start of a text, and the text after it. A question mark before a decimal
fraction stands for itself. -/
def takeMark (text : List Char) : Option (String × List Char) :=
  match text with
  | '?' :: '.' :: c :: rest =>
    if c.isDigit then some ("?", '.' :: c :: rest) else some ("?.", c :: rest)
  | _ =>
    (marks.find? fun mark => mark.toList.isPrefixOf text).map fun mark =>
      (mark, text.drop mark.length)

/-- The token at a place, its text, and the text after it. -/
def takeToken (text : List Char) : Token × List Char × List Char :=
  match text with
  | [] => (.finish, [], [])
  | c :: rest =>
    if isNameStart c || c == '\\' then
      let (name, after) := takeName false text
      (.word (String.ofList name), name, after)
    else if c.isDigit || (c == '.' && rest.head?.any Char.isDigit) then
      let (number, after) := takeNumber text
      (.number, number, after)
    else if c == '"' || c == '\'' then
      match takeString c rest with
      | some (s, after) => (.string, c :: s, after)
      | none => (.unreadable, [], text)
    else if c.toNat == 0x60 then (.backquote, [c], rest)
    else if c == '#' && rest.head?.any (fun d => isNameStart d || d == '\\') then
      let (name, after) := takeName false rest
      (.privateName, c :: name, after)
    else match takeMark text with
      | some (mark, after) => (.mark mark, mark.toList, after)
      | none => (.unreadable, [], text)

/-- A token in its place: where it starts, the byte where it stops, the place after it, whether a
line ends before it, and the spans of the comments before it. -/
structure Lexeme where
  token : Token
  start : Cursor
  stop : Nat
  after : Cursor
  newline : Bool
  comments : List (Nat × Nat)

/-- The next token after a place. -/
def Cursor.lexeme (cursor : Cursor) : Lexeme :=
  let gap := cursor.gap
  match gap.next with
  | none => ⟨.unreadable, cursor, cursor.offset, cursor, gap.newline, gap.comments⟩
  | some start =>
    let (token, taken, rest) := takeToken start.rest
    let after := start.after taken rest
    ⟨token, start, after.offset, after, gap.newline, gap.comments⟩

/-- The lexeme is this mark. -/
def Lexeme.isMark (lexeme : Lexeme) (mark : String) : Bool :=
  lexeme.token == .mark mark

/-- The lexeme is this word. -/
def Lexeme.isWord (lexeme : Lexeme) (word : String) : Bool :=
  lexeme.token == .word word

end OverrideElision.JavaScript
