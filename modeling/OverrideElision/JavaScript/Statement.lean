import OverrideElision.JavaScript.Expression

/-! # Statements -/

namespace OverrideElision.JavaScript

open Syntax (Node Kind Field)

/-- What a declaration binds: an identifier or a pattern. -/
def bindingTarget (rules : Rules) : Reader Node := do
  if ← atMark "\x7b" then return asPattern (← objectLiteral rules)
  else if ← atMark "[" then return asPattern (← arrayLiteral rules)
  else return { (← identifier) with kind := .identifier }

/-- A variable and its initial value. -/
def declarator (rules : Rules) (inAllowed : Bool) : Reader Node := do
  let start ← here
  let name ← bindingTarget rules
  let value ←
    if ← accept "=" then do pure [asField .value (← rules.assignment inAllowed)] else pure []
  nodeFrom start .variableDeclarator (asField .name name :: value)

/-- Further variables of a declaration, each after a comma. -/
def moreDeclarators (rules : Rules) (inAllowed : Bool) (first : Node) : Reader (List Node) :=
  repeated (fun declarators => do
    if ← accept "," then return .inl ((← declarator rules inAllowed) :: declarators)
    return .inr declarators.reverse) rules.limit [first]

/-- The kind of the declaration that the lexeme starts. The word `let` starts one only before a name
or a pattern. -/
def Lexeme.declarationKind? (lexeme : Lexeme) : Option Kind :=
  match lexeme.token with
  | .word "var" => some .variableDeclaration
  | .word "const" => some .lexicalDeclaration
  | .word "let" =>
    let next := lexeme.after.lexeme
    if next.identifier?.isSome || next.isMark "[" || next.isMark "\x7b" then
      some .lexicalDeclaration
    else none
  | _ => none

/-- The token of a declaration's keyword. -/
def Lexeme.keywordNode (lexeme : Lexeme) : Node :=
  lexeme.tokenNode (.other "keyword")

/-- A declaration from its keyword. -/
def declaration (rules : Rules) (keyword : Lexeme) (kind : Kind) : Reader Node := do
  advance keyword
  let declarators ← moreDeclarators rules true (← declarator rules true)
  semicolon
  nodeFrom keyword.start.offset kind (keyword.keywordNode :: declarators)

/-- An expression in parentheses, as the head of a statement. -/
def condition (rules : Rules) : Reader Node := do
  let start ← here
  expect "("
  let inner ← expression rules true
  expect ")"
  nodeFrom start .parenthesizedExpression [inner]

/-- A statement that is an expression. -/
def expressionStatement (rules : Rules) : Reader Node := do
  let start ← here
  let inner ← expression rules true
  semicolon
  nodeFrom start .expressionStatement [inner]

/-- An expression that may be left out before a mark. -/
def optionalExpression (rules : Rules) (mark : String) : Reader (List Node) := do
  if ← atMark mark then return [] else return [← expression rules true]

/-- A statement that starts with `if`. -/
def ifStatement (rules : Rules) : Reader Node := do
  let start ← here
  expectWord "if"
  let head ← condition rules
  let yes ← rules.statement
  let no ← if ← acceptWord "else" then do pure [← rules.statement] else pure []
  nodeFrom start (.other "if_statement") (head :: yes :: no)

/-- The rest of a loop over members or items, from the word `in` or `of`. -/
def loopOver (rules : Rules) (start : Nat) (left : Node) : Reader Node := do
  let right ←
    if ← acceptWord "of" then rules.assignment true
    else do
      expectWord "in"
      expression rules true
  expect ")"
  let body ← rules.statement
  nodeFrom start (.other "for_in_statement") [asField .left left, asField .right right, body]

/-- The rest of a counting loop, from the first semicolon. -/
def loopWhile (rules : Rules) (start : Nat) (initial : List Node) : Reader Node := do
  expect ";"
  let head ← optionalExpression rules ";"
  expect ";"
  let update ← optionalExpression rules ")"
  expect ")"
  let body ← rules.statement
  nodeFrom start (.other "for_statement") (initial ++ head ++ update ++ [body])

/-- Whether the head of a loop goes on with what is looped over. -/
def atLoopWord : Reader Bool := do
  return (← atWord "of") || (← atWord "in")

/-- A statement that starts with `for`. -/
def forStatement (rules : Rules) : Reader Node := do
  let start ← here
  expectWord "for"
  if (← scope).mode.isAsync then
    let _ ← acceptWord "await"
  expect "("
  let lexeme ← peek
  if lexeme.isMark ";" then return ← loopWhile rules start []
  match lexeme.declarationKind? with
  | some kind =>
    advance lexeme
    let first ← declarator rules false
    if ← atLoopWord then
      loopOver rules start { first with kind := .other "loop_target" }
    else
      let declarators ← moreDeclarators rules false first
      let initial ← nodeFrom lexeme.start.offset kind (lexeme.keywordNode :: declarators)
      loopWhile rules start [initial]
  | none =>
    let left ← expression rules false
    if ← atLoopWord then loopOver rules start (asPattern left)
    else loopWhile rules start [left]

/-- A statement that starts with `while`. -/
def whileStatement (rules : Rules) : Reader Node := do
  let start ← here
  expectWord "while"
  let head ← condition rules
  let body ← rules.statement
  nodeFrom start (.other "while_statement") [head, body]

/-- A statement that starts with `do`. Its semicolon may always be left out. -/
def doStatement (rules : Rules) : Reader Node := do
  let start ← here
  expectWord "do"
  let body ← rules.statement
  expectWord "while"
  let head ← condition rules
  let _ ← accept ";"
  nodeFrom start (.other "do_statement") [body, head]

/-- A statement that starts with `with`. -/
def withStatement (rules : Rules) : Reader Node := do
  let start ← here
  expectWord "with"
  let object ← condition rules
  let body ← rules.statement
  nodeFrom start (.other "with_statement") [object, body]

/-- Whether the statement goes on with an expression on the same line. -/
def atOperandOnLine : Reader Bool := do
  let lexeme ← peek
  return !lexeme.newline && !lexeme.isMark ";" && !lexeme.isMark "\x7d" && lexeme.token != .finish

/-- A statement that starts with `return`. -/
def returnStatement (rules : Rules) : Reader Node := do
  let start ← here
  expectWord "return"
  let value ← if ← atOperandOnLine then do pure [← expression rules true] else pure []
  semicolon
  nodeFrom start .returnStatement value

/-- A statement that starts with `throw`. -/
def throwStatement (rules : Rules) : Reader Node := do
  let start ← here
  expectWord "throw"
  let value ← expression rules true
  semicolon
  nodeFrom start (.other "throw_statement") [value]

/-- A statement that is one word and perhaps a label. -/
def jumpStatement (kind : String) : Reader Node := do
  let lexeme ← take
  let next ← peek
  if next.identifier?.isSome && !next.newline then advance next
  semicolon
  nodeFrom lexeme.start.offset (.other kind) []

/-- One case of a `switch`. -/
def switchCase (rules : Rules) : Reader Node := do
  let start ← here
  let value ←
    if ← acceptWord "default" then pure []
    else do
      expectWord "case"
      pure [← expression rules true]
  expect ":"
  let body ← statementList rules fun lexeme =>
    lexeme.isMark "\x7d" || lexeme.isWord "case" || lexeme.isWord "default"
  nodeFrom start (.other "switch_case") (value ++ body)

/-- A statement that starts with `switch`. -/
def switchStatement (rules : Rules) : Reader Node := do
  let start ← here
  expectWord "switch"
  let value ← condition rules
  expect "\x7b"
  let cases ← repeated (fun cases => do
    if ← accept "\x7d" then return .inr cases.reverse
    return .inl ((← switchCase rules) :: cases)) rules.limit []
  nodeFrom start (.other "switch_statement") (value :: cases)

/-- A statement that starts with `try`. -/
def tryStatement (rules : Rules) : Reader Node := do
  let start ← here
  expectWord "try"
  let body ← block rules
  let handler ←
    if ← acceptWord "catch" then do
      let param ←
        if ← accept "(" then do
          let target ← bindingTarget rules
          expect ")"
          pure [target]
        else pure []
      pure (param ++ [← block rules])
    else pure []
  let finalizer ← if ← acceptWord "finally" then do pure [← block rules] else pure []
  nodeFrom start (.other "try_statement") (body :: handler ++ finalizer)

/-- A declaration of a function or class, if one starts here. -/
def functionOrClass? (rules : Rules) : Reader (Option Node) := do
  let lexeme ← peek
  let start := lexeme.start.offset
  match lexeme.token with
  | .word "function" =>
    advance lexeme
    functionAfterWord rules start true none
  | .word "class" =>
    advance lexeme
    classAfterWord rules start .classDeclaration []
  | .mark "@" => decoratedClass rules .classDeclaration
  | .word "async" =>
    let next := lexeme.after.lexeme
    if next.isWord "function" && !next.newline then
      advance next
      functionAfterWord rules start true (some lexeme)
    else return none
  | _ => return none

/-- Names in braces of an import or export, or the attributes of one; what they are does not
matter. -/
def moduleNames (rules : Rules) : Reader Unit := do
  expect "\x7b"
  repeated (fun () => do
    let lexeme ← take
    match lexeme.token with
    | .mark "\x7d" => return .inr ()
    | .mark "," | .mark ":" | .word _ | .string => return .inl ()
    | _ => fail) rules.limit ()

/-- The text that names a module, with its attributes if it has some. -/
def moduleSource (rules : Rules) : Reader Unit := do
  unless (← take).token == .string do fail
  let lexeme ← peek
  if lexeme.isWord "with" || (lexeme.isWord "assert" && !lexeme.newline) then
    advance lexeme
    moduleNames rules

/-- A declaration that starts with `import`. -/
def importDeclaration (rules : Rules) : Reader Node := do
  unless (← scope).isModule do fail
  let start ← here
  expectWord "import"
  unless (← peek).token == .string do
    repeated (fun () => do
      let lexeme ← peek
      if lexeme.isMark "\x7b" then
        moduleNames rules
        return .inl ()
      else if lexeme.isWord "from" && lexeme.after.lexeme.token == .string then
        advance lexeme
        return .inr ()
      else match lexeme.token with
        | .mark "*" | .mark "," | .word _ =>
          advance lexeme
          return .inl ()
        | _ => fail) rules.limit ()
  moduleSource rules
  semicolon
  nodeFrom start (.other "import_statement") []

/-- What is exported after the word `default`: a declaration without semicolon, or an expression. -/
def exportedDefault (rules : Rules) : Reader Node := do
  match ← functionOrClass? rules with
  | some declared => return declared
  | none =>
    let value ← rules.assignment true
    semicolon
    return value

/-- A declaration that starts with `export`. -/
def exportDeclaration (rules : Rules) : Reader Node := do
  unless (← scope).isModule do fail
  let start ← here
  expectWord "export"
  let exported ←
    if ← acceptWord "default" then do pure [← exportedDefault rules]
    else if ← accept "*" then do
      if ← acceptWord "as" then
        let _ ← take
      expectWord "from"
      moduleSource rules
      semicolon
      pure []
    else if ← atMark "\x7b" then do
      moduleNames rules
      if ← acceptWord "from" then moduleSource rules
      semicolon
      pure []
    else do pure [← rules.statement]
  nodeFrom start (.other "export_statement") exported

/-- A class or an export of one that starts with decorators. -/
def decoratedStatement (rules : Rules) : Reader Node := do
  let start ← here
  let before ← decorators rules
  if ← atWord "export" then
    let exported ← exportDeclaration rules
    return { exported with start, children := before ++ exported.children }
  else
    expectWord "class"
    classAfterWord rules start .classDeclaration before

/-- A statement that starts with a word. -/
def wordStatement (rules : Rules) (lexeme : Lexeme) (text : String) : Reader Node := do
  let next := lexeme.after.lexeme
  match text with
  | "if" => ifStatement rules
  | "for" => forStatement rules
  | "while" => whileStatement rules
  | "do" => doStatement rules
  | "with" => withStatement rules
  | "return" => returnStatement rules
  | "throw" => throwStatement rules
  | "break" => jumpStatement "break_statement"
  | "continue" => jumpStatement "continue_statement"
  | "debugger" =>
    advance lexeme
    semicolon
    nodeFrom lexeme.start.offset (.other "debugger_statement") []
  | "switch" => switchStatement rules
  | "try" => tryStatement rules
  | "export" => exportDeclaration rules
  | "import" =>
    if next.isMark "(" || next.isMark "." then expressionStatement rules
    else importDeclaration rules
  | _ =>
    if lexeme.identifier?.isSome && next.isMark ":" then
      advance next
      let body ← rules.statement
      nodeFrom lexeme.start.offset (.other "labeled_statement") [body]
    else match lexeme.declarationKind? with
      | some kind => declaration rules lexeme kind
      | none =>
        match ← functionOrClass? rules with
        | some declared => return declared
        | none => expressionStatement rules

/-- A statement. -/
def statement (rules : Rules) : Reader Node := do
  let lexeme ← peek
  match lexeme.token with
  | .mark "\x7b" => block rules
  | .mark ";" =>
    advance lexeme
    return lexeme.leaf (.other "empty_statement")
  | .word text => wordStatement rules lexeme text
  | .mark "@" => decoratedStatement rules
  | _ => expressionStatement rules

end OverrideElision.JavaScript
