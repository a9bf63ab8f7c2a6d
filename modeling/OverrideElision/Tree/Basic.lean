/-! # Program trees

The shapes of code that the analysis looks at. Every other expression or statement is kept as
`other`, with its text and the assignments found anywhere inside it.

Statements and assignments carry an identity, so that one and the same statement can stand in
several places and counting assignments does not confuse two that are written alike. -/

namespace OverrideElision

/-- How many arguments a formal parameter takes. -/
inductive ParamKind where
  | required
  | optional
  | rest
deriving DecidableEq, Repr

/-- A formal parameter. `spread` says that it is written with `...`, as opposed to a documented
variable argument list; `declared` that its kind is stated, by syntax, naming convention or
documentation. -/
structure Param where
  name : String
  kind : ParamKind := .required
  spread : Bool := false
  declared : Bool := false
deriving DecidableEq, Repr

mutual

/-- An expression. A `member` is read by name, never computed, and a `spread` stands in an argument
list. -/
inductive Expr where
  | name (text : String)
  | this
  | member (object : Expr) (property : String)
  | call (callee : Expr) (args : List Expr)
  | spread (value : Expr)
  | assign (assignment : Assignment)
  | function (literal : FunctionLiteral)
  | other (text : String) (assignments : List Assignment)

/-- An assignment `target = value` and its identity. -/
structure Assignment where
  id : Nat
  target : Expr
  value : Expr

/-- A `function (...) ...` literal. `returnsValue` says that some `return` of it, outside nested
functions, has a value. -/
structure FunctionLiteral where
  params : List Param
  body : List Statement
  name : Option String
  returnsValue : Bool

/-- A statement, its identity, and its source text with leading comments, empty when it was not read
from source. -/
structure Statement where
  id : Nat
  text : String
  form : Form

/-- What a statement does. A `decl` declares a single variable with the keyword `keyword`. -/
inductive Form where
  | expr (expression : Expr)
  | ret (value : Option Expr)
  | decl (keyword name : String) (value : Option Expr)
  | other (assignments : List Assignment)

end

instance : Inhabited Expr := ⟨.this⟩

instance : Inhabited Statement := ⟨⟨0, "", .other []⟩⟩

end OverrideElision
