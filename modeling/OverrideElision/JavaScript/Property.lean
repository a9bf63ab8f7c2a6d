import OverrideElision.JavaScript.Function

/-! # Members of objects and classes -/

namespace OverrideElision.JavaScript

open Syntax (Node Kind Field)

/-- Whether a property name starts with this token. -/
def Lexeme.startsName (lexeme : Lexeme) : Bool :=
  match lexeme.token with
  | .word _ | .privateName | .number | .string => true
  | .mark mark => mark = "["
  | _ => false

/-- Whether a property name, or the star of a generator before one, starts with this token. -/
def Lexeme.startsProperty (lexeme : Lexeme) : Bool :=
  lexeme.startsName || lexeme.isMark "*"

/-- The name of a property: a word of any kind, a private name, a literal, or an expression in
brackets. -/
def propertyName (rules : Rules) : Reader Node := do
  let lexeme ← take
  match lexeme.token with
  | .word _ => return lexeme.leaf .propertyIdentifier
  | .privateName => return lexeme.leaf (.other "private_property_identifier")
  | .number => return lexeme.leaf (.other "number")
  | .string => return lexeme.leaf (.other "string")
  | .mark "[" =>
    let name ← rules.assignment true
    expect "]"
    nodeFrom lexeme.start.offset (.other "computed_property_name") [name]
  | _ => fail

/-- Takes the next token if it is this word and modifies the member that the token after it starts.
A word that is itself the name of a member stays. -/
def acceptModifier (word : String) (modifies : Lexeme → Bool) : Reader Bool := do
  let lexeme ← peek
  if lexeme.isWord word && modifies lexeme.after.lexeme then
    advance lexeme
    return true
  else return false

/-- Takes what may stand before the name of a method: the word `async` on the line of the name, the
star of a generator, or one of the words `get` and `set`. The result is the mode of the method. -/
def methodModifiers : Reader FunctionMode := do
  let isAsync ← acceptModifier "async" fun next => next.startsProperty && !next.newline
  let isGenerator ← accept "*"
  unless isAsync || isGenerator do
    unless ← acceptModifier "get" Lexeme.startsName do
      let _ ← acceptModifier "set" Lexeme.startsName
  return { isAsync, isGenerator }

/-- A member of an object literal. -/
def objectMember (rules : Rules) : Reader Node := do
  let start ← here
  if ← accept "..." then
    return ← nodeFrom start .spreadElement [← rules.assignment true]
  let mode ← methodModifiers
  let name ← propertyName rules
  if ← atMark "(" then functionRest rules mode start .methodDefinition [asField .name name]
  else if ← accept ":" then
    let value ← rules.assignment true
    nodeFrom start pairKind [asField (.other "key") name, asField .value value]
  else if ← accept "=" then
    let value ← rules.assignment true
    nodeFrom start (.other "object_assignment_pattern") [asField .left name, asField .right value]
  else return { name with kind := .other "shorthand_property_identifier" }

/-- An object literal. -/
def objectLiteral (rules : Rules) : Reader Node := do
  let start ← here
  expect "\x7b"
  let members ← listUpTo rules "\x7d" false (objectMember rules)
  nodeFrom start objectKind members

/-- The name after a dot: any word, or a private name. -/
def memberName : Reader Node := do
  let lexeme ← take
  match lexeme.token with
  | .word _ => return lexeme.leaf .propertyIdentifier
  | .privateName => return lexeme.leaf (.other "private_property_identifier")
  | _ => fail

/-- A decorator: a name, perhaps read from an object and called, or an expression in parentheses. -/
def decorator (rules : Rules) : Reader Node := do
  let start ← here
  expect "@"
  let expressions ←
    if ← accept "(" then do
      let inner ← rules.assignment true
      expect ")"
      pure [inner]
    else do
      let _ ← identifier
      repeated (fun () => do
        if ← accept "." then
          let _ ← memberName
          return .inl ()
        else return .inr ()) rules.limit ()
      if ← atMark "(" then pure [← arguments rules] else pure []
  nodeFrom start (.other "decorator") expressions

/-- The decorators in front of a class or of one of its members. -/
def decorators (rules : Rules) : Reader (List Node) :=
  repeated (fun nodes => do
    if ← atMark "@" then return .inl ((← decorator rules) :: nodes)
    return .inr nodes.reverse) rules.limit []

/-- A member of a class: a static block, a method or a field. -/
def classMember (rules : Rules) : Reader Node := do
  let start ← here
  let before ← decorators rules
  let lexeme ← peek
  if lexeme.isWord "static" && lexeme.after.lexeme.isMark "\x7b" then
    advance lexeme
    let body ← inFunction {} (block rules)
    return ← nodeFrom start (.other "class_static_block") [asField .body body]
  let _ ← acceptModifier "static" Lexeme.startsProperty
  let mode ← methodModifiers
  let name ← propertyName rules
  if ← atMark "(" then
    functionRest rules mode start .methodDefinition (before ++ [asField .name name])
  else
    let value ←
      if ← accept "=" then do
        pure [asField .value (← inFunction {} (rules.assignment true))]
      else pure []
    semicolon
    nodeFrom start (.other "field_definition") (before ++ asField .property name :: value)

/-- A class after the word `class`. `before` holds its decorators. -/
def classAfterWord (rules : Rules) (start : Nat) (kind : Kind) (before : List Node) :
    Reader Node := do
  let lexeme ← peek
  let name ←
    if lexeme.identifier?.isSome then do pure [asField .name (← identifier)]
    else pure []
  let heritage ←
    if ← acceptWord "extends" then do
      let base ← rules.leftHandSide
      pure [base]
    else pure []
  let bodyStart ← here
  expect "\x7b"
  let members ← repeated (fun members => do
    if ← accept "\x7d" then return .inr members.reverse
    if ← accept ";" then return .inl members
    return .inl ((← classMember rules) :: members)) rules.limit []
  let body ← nodeFrom bodyStart (.other "class_body") members
  nodeFrom start kind (before ++ name ++ heritage ++ [asField .body body])

/-- A class that starts with decorators. -/
def decoratedClass (rules : Rules) (kind : Kind) : Reader Node := do
  let start ← here
  let before ← decorators rules
  expectWord "class"
  classAfterWord rules start kind before

end OverrideElision.JavaScript
