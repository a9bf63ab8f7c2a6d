import OverrideElision.JavaScript.Lexeme
import OverrideElision.Syntax.Node

/-! # Readers

A reader takes tokens from a source and makes nodes of them. Expressions and statements hold each
other, so the readers of larger constructs are given the readers of their parts as `Rules`. What a
word is may depend on the function and the source that it stands in, so a reader knows its
`Scope`. -/

namespace OverrideElision.JavaScript

open Syntax (Node Kind Field)

/-- The source cannot be read on from this byte. -/
structure SyntaxError where
  offset : Nat
deriving DecidableEq, Repr

/-- Whether the code of a function is asynchronous, and whether it is a generator. The word `await`
is an operator in asynchronous code, and `yield` in a generator; elsewhere they are identifiers. -/
structure FunctionMode where
  isAsync : Bool := false
  isGenerator : Bool := false
deriving DecidableEq, Repr

/-- What the code being read is part of. Only a module imports and exports. -/
structure Scope where
  mode : FunctionMode
  isModule : Bool
deriving DecidableEq, Repr

/-- The place of a reader, the byte where the last token stopped, and the scope of the place. -/
structure ReaderState where
  cursor : Cursor
  stop : Nat
  scope : Scope

/-- A reader of some value. -/
abbrev Reader := StateT ReaderState (Except SyntaxError)

/-- The readers of the parts: an assignment-level expression, in which the operator `in` may be
ruled out, the operand of `extends`, and a statement. A repetition is read `limit` times at
most. -/
structure Rules where
  limit : Nat
  assignment : (inAllowed : Bool) → Reader Node
  leftHandSide : Reader Node
  statement : Reader Node

/-- Nothing can be read here. -/
def fail {α : Type} : Reader α := do
  throw ⟨(← get).cursor.offset⟩

/-- The next token, which stays. -/
def peek : Reader Lexeme := do
  return (← get).cursor.lexeme

/-- Goes on at a place where a token has just stopped. -/
def moveTo (cursor : Cursor) : Reader Unit :=
  modify fun state => { state with cursor, stop := cursor.offset }

/-- Goes on after a token. -/
def advance (lexeme : Lexeme) : Reader Unit :=
  modify fun state => { state with cursor := lexeme.after, stop := lexeme.stop }

/-- The scope of the place. -/
def scope : Reader Scope := do
  return (← get).scope

/-- Reads the code of a function. After it the scope is what it was before. -/
def inFunction {α : Type} (mode : FunctionMode) (reader : Reader α) : Reader α := do
  let outer ← scope
  modify fun state => { state with scope := { outer with mode } }
  let result ← reader
  modify fun state => { state with scope := outer }
  return result

/-- The next token, which is taken. -/
def take : Reader Lexeme := do
  let lexeme ← peek
  advance lexeme
  return lexeme

/-- Whether the next token is this mark. -/
def atMark (mark : String) : Reader Bool := do
  return (← peek).isMark mark

/-- Whether the next token is this word. -/
def atWord (word : String) : Reader Bool := do
  return (← peek).isWord word

/-- Takes the next token if it is this mark. -/
def accept (mark : String) : Reader Bool := do
  let lexeme ← peek
  if lexeme.isMark mark then
    advance lexeme
    return true
  else return false

/-- Takes the next token if it is this word. -/
def acceptWord (word : String) : Reader Bool := do
  let lexeme ← peek
  if lexeme.isWord word then
    advance lexeme
    return true
  else return false

/-- Takes the next token, which has to be this mark. -/
def expect (mark : String) : Reader Unit := do
  unless ← accept mark do fail

/-- Takes the next token, which has to be this word. -/
def expectWord (word : String) : Reader Unit := do
  unless ← acceptWord word do fail

/-- Repeats a step until it has a result, `limit` times at most. -/
def repeated {α β : Type} (step : α → Reader (α ⊕ β)) : (limit : Nat) → α → Reader β
  | 0, _ => fail
  | limit + 1, a => do
    match ← step a with
    | .inl a => repeated step limit a
    | .inr b => return b

/-- Items separated by commas up to a closing mark, which is taken. Where `holes` are allowed an
item may be left out. -/
def listUpTo {α : Type} (rules : Rules) (close : String) (holes : Bool) (item : Reader α) :
    Reader (List α) :=
  repeated (fun items => do
    if ← accept close then return .inr items.reverse
    if holes then
      if ← accept "," then return .inl items
    let next ← item
    unless ← atMark close do expect ","
    return .inl (next :: items)) rules.limit []

/-- A semicolon, or a place where one may be left out: before a closing brace, at the end, and where
a line ends. -/
def semicolon : Reader Unit := do
  let lexeme ← peek
  if lexeme.isMark ";" then advance lexeme
  else unless lexeme.isMark "\x7d" || lexeme.token == .finish || lexeme.newline do fail

/-- A node without children over the bytes from `start` up to `stop`. -/
def leafOver (kind : Kind) (start stop : Nat) : Node :=
  { kind, named := true, field := none, start, stop, id := 0, children := [] }

/-- The node of a single token. -/
def Lexeme.leaf (lexeme : Lexeme) (kind : Kind) : Node :=
  leafOver kind lexeme.start.offset lexeme.stop

/-- A token that is kept as a child. -/
def Lexeme.tokenNode (lexeme : Lexeme) (kind : Kind) : Node :=
  { lexeme.leaf kind with named := false }

/-- The node as the child in a field. -/
def asField (field : Field) (n : Node) : Node :=
  { n with field := some field }

/-- A node from `start` to the end of the last token. -/
def nodeFrom (start : Nat) (kind : Kind) (children : List Node) : Reader Node := do
  return { leafOver kind start (← get).stop with children }

/-- The byte at which the next token starts. -/
def here : Reader Nat := do
  return (← peek).start.offset

/-- Words that are no identifiers. -/
def reservedWords : List String := [
  "break", "case", "catch", "class", "const", "continue", "debugger", "default", "delete", "do",
  "else", "enum", "export", "extends", "false", "finally", "for", "function", "if", "import", "in",
  "instanceof", "new", "null", "return", "super", "switch", "this", "throw", "true", "try",
  "typeof", "var", "void", "while", "with"]

/-- The word of an identifier. -/
def Lexeme.identifier? (lexeme : Lexeme) : Option String :=
  match lexeme.token with
  | .word text => if reservedWords.contains text then none else some text
  | _ => none

/-- An identifier as a name that is bound. -/
def identifier : Reader Node := do
  let lexeme ← peek
  match lexeme.identifier? with
  | none => fail
  | some text =>
    advance lexeme
    return lexeme.leaf (if text = "undefined" then .other "undefined" else .identifier)

end OverrideElision.JavaScript
