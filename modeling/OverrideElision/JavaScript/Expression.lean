import OverrideElision.JavaScript.Property

/-! # Expressions

Which operator binds closer does not matter to any user of the tree, so a chain of binary operators
is one node with all its operands. -/

namespace OverrideElision.JavaScript

open Syntax (Node Kind Field)

/-- One or more expressions separated by commas. -/
def expression (rules : Rules) (inAllowed : Bool) : Reader Node := do
  let start ← here
  let first ← rules.assignment inAllowed
  let others ← repeated (fun others => do
    if ← accept "," then return .inl ((← rules.assignment inAllowed) :: others)
    return .inr others.reverse) rules.limit []
  if others.isEmpty then return first
  nodeFrom start (.other "sequence_expression") (first :: others)

/-- A template up to its closing backquote. Each step reads one character or one substitution. -/
def templateFrom (rules : Rules) (start : Nat) : Reader Node := do
  let substitutions ← repeated (fun substitutions => do
    let state ← get
    match state.cursor.rest with
    | [] => fail
    | '\\' :: c :: rest =>
      set { state with cursor := state.cursor.after ['\\', c] rest }
      return .inl substitutions
    | '$' :: '{' :: rest =>
      set { state with cursor := state.cursor.after ['$', '{'] rest }
      let inner ← expression rules true
      expect "\x7d"
      let node ← nodeFrom state.cursor.offset (.other "template_substitution") [inner]
      return .inl (node :: substitutions)
    | c :: rest =>
      let after := state.cursor.after [c] rest
      if c.toNat = 0x60 then
        moveTo after
        return .inr substitutions.reverse
      else
        set { state with cursor := after }
        return .inl substitutions) rules.limit []
  nodeFrom start (.other "template_string") substitutions

/-- A template. -/
def template (rules : Rules) : Reader Node := do
  let lexeme ← take
  if lexeme.token == .backquote then templateFrom rules lexeme.start.offset else fail

/-- A regular expression, from the slash that opens it. -/
def regularExpression (lexeme : Lexeme) : Reader Node := do
  match takePattern false (lexeme.start.rest.drop 1) with
  | none => fail
  | some (pattern, rest) =>
    let flags := rest.takeWhile isNameChar
    let after := lexeme.start.after ('/' :: pattern ++ flags) (rest.dropWhile isNameChar)
    moveTo after
    return leafOver (.other "regex") lexeme.start.offset after.offset

/-- An array literal. -/
def arrayLiteral (rules : Rules) : Reader Node := do
  let start ← here
  expect "["
  let items ← listUpTo rules "]" true (element rules)
  nodeFrom start arrayKind items

/-- An expression in parentheses, or an arrow function that starts with its parameters. -/
def parenthesized (rules : Rules) (inAllowed : Bool) : Reader Node := do
  let start ← here
  expect "("
  let innerStart ← here
  let items ← repeated (fun items => do
    if ← atMark ")" then return .inr items.reverse
    let next ← element rules
    unless ← atMark ")" do expect ","
    return .inl (next :: items)) rules.limit []
  let innerStop := (← get).stop
  expect ")"
  if ← atArrow then
    let params ← nodeFrom start .formalParameters (items.map asPattern)
    arrowAfterParams rules false inAllowed start [asField .parameters params]
  else match items with
    | [] => fail
    | [inner] => nodeFrom start .parenthesizedExpression [inner]
    | items =>
      let inner := leafOver (.other "sequence_expression") innerStart innerStop
      nodeFrom start .parenthesizedExpression [{ inner with children := items }]

/-- An expression that starts with an identifier: the identifier, or an arrow function whose only
parameter it is. -/
def identifierOrArrow (rules : Rules) (inAllowed : Bool) : Reader Node := do
  let name ← identifier
  if ← atArrow then
    arrowAfterParams rules false inAllowed name.start [asField (.other "parameter") name]
  else return name

/-- An expression that starts with the word `async`, which has been taken: a function, an arrow
function, a call that turns out to be the parameters of one, or an identifier. -/
def afterAsync (rules : Rules) (inAllowed : Bool) (async : Lexeme) : Reader Node := do
  let start := async.start.offset
  let next ← peek
  if next.newline then return async.leaf .identifier
  else if next.isWord "function" then
    advance next
    functionAfterWord rules start false (some async)
  else if next.identifier?.isSome && next.after.lexeme.isMark "=>" then
    let name ← identifier
    arrowAfterParams rules true inAllowed start [asField (.other "parameter") name]
  else if next.isMark "(" then
    let args ← arguments rules
    if ← atArrow then
      let params := { args with kind := .formalParameters, children := args.children.map asPattern }
      arrowAfterParams rules true inAllowed start [asField .parameters params]
    else
      nodeFrom start .callExpression
        [asField .function (async.leaf .identifier), asField .arguments args]
  else if next.isMark "=>" then
    arrowAfterParams rules false inAllowed start
      [asField (.other "parameter") (async.leaf .identifier)]
  else return async.leaf .identifier

/-- An expression without suffixes that starts with a word. -/
def wordOperand (rules : Rules) (inAllowed : Bool) (lexeme : Lexeme) (text : String) :
    Reader Node := do
  let start := lexeme.start.offset
  match text with
  | "this" =>
    advance lexeme
    return lexeme.leaf .this
  | "function" =>
    advance lexeme
    functionAfterWord rules start false none
  | "class" =>
    advance lexeme
    classAfterWord rules start .classExpression []
  | "async" =>
    advance lexeme
    afterAsync rules inAllowed lexeme
  | "import" =>
    advance lexeme
    if ← accept "." then
      unless (← scope).isModule do fail
      let _ ← propertyName rules
      nodeFrom start (.other "meta_property") []
    else return lexeme.leaf (.other "import")
  | "super" | "null" | "true" | "false" =>
    advance lexeme
    return lexeme.leaf (.other text)
  | _ => identifierOrArrow rules inAllowed

/-- An expression without suffixes, `new` apart. -/
def operand (rules : Rules) (inAllowed : Bool) : Reader Node := do
  let lexeme ← peek
  match lexeme.token with
  | .word text => wordOperand rules inAllowed lexeme text
  | .privateName =>
    advance lexeme
    return lexeme.leaf (.other "private_property_identifier")
  | .number =>
    advance lexeme
    return lexeme.leaf (.other "number")
  | .string =>
    advance lexeme
    return lexeme.leaf (.other "string")
  | .backquote => template rules
  | .mark "(" => parenthesized rules inAllowed
  | .mark "[" => arrayLiteral rules
  | .mark "\x7b" => objectLiteral rules
  | .mark "/" | .mark "/=" => regularExpression lexeme
  | .mark "@" => decoratedClass rules .classExpression
  | _ => fail

/-- An expression in brackets after an object. -/
def subscript (rules : Rules) (start : Nat) (before : List Node) : Reader Node := do
  expect "["
  let index ← expression rules true
  expect "]"
  nodeFrom start (.other "subscript_expression") (before ++ [index])

/-- One suffix that may follow the operand of `new`, if there is one: a property read, a subscript
or a template. -/
def memberSuffix? (rules : Rules) (start : Nat) (object : Node) : Reader (Option Node) := do
  let lexeme ← peek
  match lexeme.token with
  | .mark "." =>
    advance lexeme
    let name ← memberName
    nodeFrom start .memberExpression [asField .object object, asField .property name]
  | .mark "[" => subscript rules start [asField .object object]
  | .backquote =>
    let text ← template rules
    nodeFrom start .callExpression [asField .function object, asField .arguments text]
  | _ => return none

/-- What follows the mark of an optional chain: arguments, a subscript, a template or a property
name. -/
def optionalSuffix (rules : Rules) (start : Nat) (object : Node) (chain : Node) : Reader Node := do
  let lexeme ← peek
  match lexeme.token with
  | .mark "(" =>
    let args ← arguments rules
    nodeFrom start .callExpression [asField .function object, chain, asField .arguments args]
  | .mark "[" => subscript rules start [asField .object object, chain]
  | _ =>
    let name ← memberName
    nodeFrom start .memberExpression [asField .object object, chain, asField .property name]

/-- An operand with all its suffixes. An arrow function takes none. -/
def withSuffixes (rules : Rules) (start : Nat) (base : Node) : Reader Node :=
  repeated (fun object => do
    if object.kind = .arrowFunction then return .inr object
    if let some longer ← memberSuffix? rules start object then return .inl longer
    let lexeme ← peek
    match lexeme.token with
    | .mark "(" =>
      let args ← arguments rules
      return .inl (← nodeFrom start .callExpression
        [asField .function object, asField .arguments args])
    | .mark "?." =>
      advance lexeme
      return .inl (← optionalSuffix rules start object (lexeme.leaf .optionalChain))
    | _ => return .inr object) rules.limit base

/-- What `new` applies to, without suffixes. The word `async` is an identifier here unless a
function follows on its line: parentheses after it hold the arguments of the constructor. -/
def constructorOperand (rules : Rules) : Reader Node := do
  let lexeme ← peek
  let next := lexeme.after.lexeme
  if lexeme.isWord "new" then
    advance lexeme
    expect "."
    let _ ← memberName
    nodeFrom lexeme.start.offset (.other "meta_property") []
  else if lexeme.isWord "async" && (next.newline || !next.isWord "function") then
    advance lexeme
    return lexeme.leaf .identifier
  else operand rules true

/-- An expression that starts with `new`: as many as there are in a row take their operands from
the inside out, each with the arguments that follow it. -/
def newExpression (rules : Rules) : Reader Node := do
  let starts ← repeated (fun starts => do
    let lexeme ← peek
    if lexeme.isWord "new" && !lexeme.after.lexeme.isMark "." then
      advance lexeme
      return .inl (lexeme.start.offset :: starts)
    else return .inr starts) rules.limit []
  let base ← constructorOperand rules
  starts.foldlM (fun base start => do
    let constructor ← repeated (fun object => do
      match ← memberSuffix? rules base.start object with
      | some longer => return .inl longer
      | none => return .inr object) rules.limit base
    let args ← if ← atMark "(" then do pure [asField .arguments (← arguments rules)] else pure []
    nodeFrom start (.other "new_expression")
      (asField (.other "constructor") constructor :: args)) base

/-- An operand with its suffixes. -/
def leftHandSide (rules : Rules) (inAllowed : Bool) : Reader Node := do
  let start ← here
  let base ← if ← atWord "new" then newExpression rules else operand rules inAllowed
  withSuffixes rules start base

/-- The words that are operators in front of an operand in all code. -/
def operatorWords : List String := ["typeof", "void", "delete"]

/-- The marks that are operators in front of an operand. -/
def operatorMarks : List String := ["!", "~", "+", "-", "++", "--"]

/-- Whether an operand may start with this token. -/
def Lexeme.startsOperand (lexeme : Lexeme) : Bool :=
  match lexeme.token with
  | .word text => !(["in", "instanceof"].contains text)
  | .privateName | .number | .string | .backquote => true
  | .mark mark => operatorMarks.contains mark || ["(", "[", "\x7b", "/", "/="].contains mark
  | .finish | .unreadable => false

/-- The lexeme is an operator in front of an operand, in the code of a function of this mode. -/
def Lexeme.isOperatorBefore (lexeme : Lexeme) (mode : FunctionMode) : Bool :=
  match lexeme.token with
  | .word text => operatorWords.contains text || (text = "await" && mode.isAsync)
  | .mark mark => operatorMarks.contains mark
  | _ => false

/-- An operand with the operators in front of it and an increment or decrement after it, which must
be on the same line. -/
def unary (rules : Rules) (inAllowed : Bool) : Reader Node := do
  let starts ← repeated (fun starts => do
    let lexeme ← peek
    if lexeme.isOperatorBefore (← scope).mode then
      advance lexeme
      return .inl (lexeme.start.offset :: starts)
    else return .inr starts) rules.limit []
  let base ← leftHandSide rules inAllowed
  let lexeme ← peek
  let base ←
    if (lexeme.isMark "++" || lexeme.isMark "--") && !lexeme.newline then do
      advance lexeme
      nodeFrom base.start (.other "update_expression") [base]
    else pure base
  starts.foldlM (fun operand start => nodeFrom start (.other "unary_expression") [operand]) base

/-- The marks that are operators between operands. -/
def binaryMarks : List String := [
  "??", "||", "&&", "|", "^", "&", "==", "!=", "===", "!==", "<", ">", "<=", ">=", "<<", ">>",
  ">>>", "+", "-", "*", "/", "%", "**"]

/-- The lexeme is an operator between operands. -/
def Lexeme.isOperatorBetween (lexeme : Lexeme) (inAllowed : Bool) : Bool :=
  match lexeme.token with
  | .word text => text = "instanceof" || (text = "in" && inAllowed)
  | .mark mark => binaryMarks.contains mark
  | _ => false

/-- Operands with operators between them. -/
def binary (rules : Rules) (inAllowed : Bool) : Reader Node := do
  let start ← here
  let first ← unary rules inAllowed
  if first.kind = .arrowFunction then return first
  let others ← repeated (fun others => do
    let lexeme ← peek
    if lexeme.isOperatorBetween inAllowed then
      advance lexeme
      return .inl ((← unary rules inAllowed) :: others)
    else return .inr others.reverse) rules.limit []
  if others.isEmpty then return first
  nodeFrom start (.other "binary_expression") (first :: others)

/-- A condition with its two alternatives, or an expression without a condition. -/
def conditional (rules : Rules) (inAllowed : Bool) : Reader Node := do
  let start ← here
  let condition ← binary rules inAllowed
  if condition.kind = .arrowFunction then return condition
  if ← accept "?" then
    let yes ← rules.assignment true
    expect ":"
    let no ← rules.assignment inAllowed
    nodeFrom start (.other "ternary_expression") [condition, yes, no]
  else return condition

/-- An expression that starts with the word `yield`: a star and an operand may follow it, the
operand on the same line. -/
def yieldExpression (rules : Rules) (inAllowed : Bool) : Reader Node := do
  let start ← here
  expectWord "yield"
  if ← accept "*" then
    return ← nodeFrom start (.other "yield_expression") [← rules.assignment inAllowed]
  let lexeme ← peek
  if lexeme.startsOperand && !lexeme.newline then
    nodeFrom start (.other "yield_expression") [← rules.assignment inAllowed]
  else nodeFrom start (.other "yield_expression") []

/-- The operators that compute the value they assign. -/
def compoundMarks : List String := [
  "+=", "-=", "*=", "/=", "%=", "**=", "<<=", ">>=", ">>>=", "&=", "^=", "|=", "&&=", "||=",
  "??="]

/-- An expression that is not a sequence. -/
def assignment (rules : Rules) (inAllowed : Bool) : Reader Node := do
  let start ← here
  if (← atWord "yield") && (← scope).mode.isGenerator then
    return ← yieldExpression rules inAllowed
  let left ← conditional rules inAllowed
  if left.kind = .arrowFunction then return left
  let lexeme ← peek
  match lexeme.token with
  | .mark "=" =>
    advance lexeme
    let right ← rules.assignment inAllowed
    nodeFrom start .assignmentExpression
      [asField .left (asPattern left), asField .right right]
  | .mark mark =>
    if compoundMarks.contains mark then
      advance lexeme
      let right ← rules.assignment inAllowed
      nodeFrom start (.other "augmented_assignment_expression")
        [asField .left left, asField .right right]
    else return left
  | _ => return left

end OverrideElision.JavaScript
