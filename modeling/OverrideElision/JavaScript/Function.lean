import OverrideElision.JavaScript.Pattern

/-! # Functions, calls and blocks -/

namespace OverrideElision.JavaScript

open Syntax (Node Kind Field)

/-- Statements, and the comments between them, up to a token at which `stops` holds. -/
def statementList (rules : Rules) (stops : Lexeme → Bool) : Reader (List Node) :=
  repeated (fun nodes => do
    let lexeme ← peek
    let comments := lexeme.comments.map fun (start, stop) => leafOver .comment start stop
    let nodes := comments.reverse ++ nodes
    if stops lexeme then return .inr nodes.reverse
    return .inl ((← rules.statement) :: nodes)) rules.limit []

/-- Statements in braces. -/
def block (rules : Rules) : Reader Node := do
  let start ← here
  expect "\x7b"
  let statements ← statementList rules (·.isMark "\x7d")
  expect "\x7d"
  nodeFrom start .statementBlock statements

/-- A parameter list. -/
def parameters (rules : Rules) : Reader Node := do
  let start ← here
  expect "("
  let params ← listUpTo rules ")" false do
    let paramStart ← here
    if ← accept "..." then
      nodeFrom paramStart .restPattern [asPattern (← rules.assignment true)]
    else return asPattern (← rules.assignment true)
  nodeFrom start .formalParameters params

/-- An expression, or several to be spread out. -/
def element (rules : Rules) : Reader Node := do
  let start ← here
  if ← accept "..." then nodeFrom start .spreadElement [← rules.assignment true]
  else rules.assignment true

/-- The arguments of a call. -/
def arguments (rules : Rules) : Reader Node := do
  let start ← here
  expect "("
  let args ← listUpTo rules ")" false (element rules)
  nodeFrom start .arguments args

/-- The parameters and the body of a function, after what comes before them. -/
def functionRest (rules : Rules) (mode : FunctionMode) (start : Nat) (kind : Kind)
    (before : List Node) : Reader Node := do
  let (params, body) ← inFunction mode do
    let params ← parameters rules
    pure (params, ← block rules)
  nodeFrom start kind (before ++ [asField .parameters params, asField .body body])

/-- A function after the word `function`, as a declaration or as an expression. `async?` is the word
`async` where it stands before. -/
def functionAfterWord (rules : Rules) (start : Nat) (declared : Bool) (async? : Option Lexeme) :
    Reader Node := do
  let mode : FunctionMode := { isAsync := async?.isSome, isGenerator := ← accept "*" }
  let name ←
    if (← peek).identifier?.isSome then do pure [asField .name (← identifier)]
    else pure []
  let kind := match declared, mode.isGenerator with
    | true, true => Kind.generatorFunctionDeclaration
    | true, false => .functionDeclaration
    | false, true => .generatorFunction
    | false, false => .functionExpression
  let before := async?.toList.map (·.tokenNode .asyncWord)
  functionRest rules mode start kind (before ++ name)

/-- An arrow function after its parameters. -/
def arrowAfterParams (rules : Rules) (isAsync inAllowed : Bool) (start : Nat)
    (params : List Node) : Reader Node := do
  expect "=>"
  let body ← inFunction { isAsync } do
    if ← atMark "\x7b" then block rules else rules.assignment inAllowed
  nodeFrom start .arrowFunction (params ++ [asField .body body])

/-- Whether an arrow follows on the same line. -/
def atArrow : Reader Bool := do
  let lexeme ← peek
  return lexeme.isMark "=>" && !lexeme.newline

end OverrideElision.JavaScript
