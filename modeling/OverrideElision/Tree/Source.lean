import OverrideElision.Tree.Basic

/-! # Writing trees as source text

A statement read from source prints as the text it was read from; any other statement is written
out from its tree. -/

namespace OverrideElision

/-- A parameter as written in a parameter list. -/
def Param.source (param : Param) : String :=
  if param.kind = .rest ∧ param.spread then "..." ++ param.name else param.name

mutual

/-- An expression as source text. -/
def Expr.source : Expr → String
  | .name text => text
  | .this => "this"
  | .member object property => object.source ++ "." ++ property
  | .call callee args => callee.source ++ "(" ++ ", ".intercalate (Expr.sources args) ++ ")"
  | .spread value => "..." ++ value.source
  | .assign assignment => assignment.source
  | .function literal => literal.source
  | .other text _ => text

/-- The texts of several expressions. -/
def Expr.sources : List Expr → List String
  | [] => []
  | e :: es => e.source :: Expr.sources es

/-- An assignment as source text. -/
def Assignment.source : Assignment → String
  | ⟨_, target, value⟩ => target.source ++ " = " ++ value.source

/-- A function literal on one line. -/
def FunctionLiteral.source : FunctionLiteral → String
  | ⟨params, body, name, _⟩ =>
    let inner := " ".intercalate (Statement.sources body)
    "function" ++ (if name.getD "" = "" then "" else " " ++ name.getD "") ++ "("
      ++ ", ".intercalate (params.map Param.source) ++ ") \x7b"
      ++ (if inner = "" then "" else " " ++ inner ++ " ") ++ "\x7d"

/-- The text of a statement. -/
def Statement.source : Statement → String
  | ⟨_, text, form⟩ => if text = "" then form.source else text

/-- The texts of several statements. -/
def Statement.sources : List Statement → List String
  | [] => []
  | s :: ss => s.source :: Statement.sources ss

/-- A statement written out from its tree. Of an `other` statement nothing is known but its text. -/
def Form.source : Form → String
  | .expr e => e.source ++ ";"
  | .ret none => "return;"
  | .ret (some e) => "return " ++ e.source ++ ";"
  | .decl keyword name none => keyword ++ " " ++ name ++ ";"
  | .decl keyword name (some e) => keyword ++ " " ++ name ++ " = " ++ e.source ++ ";"
  | .other _ => ""

end

mutual

/-- The expression with the text of the statements in it forgotten. -/
def Expr.forgetText : Expr → Expr
  | .name text => .name text
  | .this => .this
  | .member object property => .member object.forgetText property
  | .call callee args => .call callee.forgetText (Expr.forgetTexts args)
  | .spread value => .spread value.forgetText
  | .assign assignment => .assign assignment.forgetText
  | .function literal => .function literal.forgetText
  | .other text assignments => .other text (Assignment.forgetTexts assignments)

/-- The expressions with the text of the statements in them forgotten. -/
def Expr.forgetTexts : List Expr → List Expr
  | [] => []
  | e :: es => e.forgetText :: Expr.forgetTexts es

/-- The assignment with the text of the statements in it forgotten. -/
def Assignment.forgetText : Assignment → Assignment
  | ⟨id, target, value⟩ => ⟨id, target.forgetText, value.forgetText⟩

/-- The assignments with the text of the statements in them forgotten. -/
def Assignment.forgetTexts : List Assignment → List Assignment
  | [] => []
  | a :: as => a.forgetText :: Assignment.forgetTexts as

/-- The function literal with the text of the statements in it forgotten. -/
def FunctionLiteral.forgetText : FunctionLiteral → FunctionLiteral
  | ⟨params, body, name, returnsValue⟩ => ⟨params, Statement.forgetTexts body, name, returnsValue⟩

/-- The statement with its text forgotten wherever its tree says as much, so that printing writes it
out from the tree. -/
def Statement.forgetText : Statement → Statement
  | ⟨id, text, .other assignments⟩ => ⟨id, text, .other (Assignment.forgetTexts assignments)⟩
  | ⟨id, _, form⟩ => ⟨id, "", form.forgetText⟩

/-- The statements with their text forgotten. -/
def Statement.forgetTexts : List Statement → List Statement
  | [] => []
  | s :: ss => s.forgetText :: Statement.forgetTexts ss

/-- The form with the text of the statements in it forgotten. -/
def Form.forgetText : Form → Form
  | .expr e => .expr e.forgetText
  | .ret none => .ret none
  | .ret (some e) => .ret (some e.forgetText)
  | .decl keyword name none => .decl keyword name none
  | .decl keyword name (some e) => .decl keyword name (some e.forgetText)
  | .other assignments => .other (Assignment.forgetTexts assignments)

end

theorem Statement.source_of_text {s : Statement} (h : s.text ≠ "") : s.source = s.text := by
  cases s
  simp only [Statement.source]
  exact if_neg h

end OverrideElision
