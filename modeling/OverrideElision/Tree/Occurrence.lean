import OverrideElision.Tree.Basic

/-! # Assignments in a statement

Every assignment at or below a statement, together with the innermost statement around it. A node
comes before what is below it, and the parts of a node come last part first. -/

namespace OverrideElision

/-- An assignment and the innermost statement that contains it. -/
structure Occurrence where
  assignment : Assignment
  enclosing : Statement

mutual

/-- The assignments at or below an expression that stands in `enclosing`, function bodies apart. -/
def Expr.occurrences (enclosing : Statement) : Expr → List Occurrence
  | .name _ => []
  | .this => []
  | .member object _ => object.occurrences enclosing
  | .call callee args => Expr.allOccurrences enclosing args ++ callee.occurrences enclosing
  | .spread value => value.occurrences enclosing
  | .assign assignment => assignment.occurrences enclosing
  | .function literal => literal.occurrences
  | .other _ assignments => Assignment.allOccurrences enclosing assignments

/-- The assignments in several expressions, those of the last expression first. -/
def Expr.allOccurrences (enclosing : Statement) : List Expr → List Occurrence
  | [] => []
  | e :: es => Expr.allOccurrences enclosing es ++ e.occurrences enclosing

/-- An assignment itself, then those in its value, then those in its target. -/
def Assignment.occurrences (enclosing : Statement) : Assignment → List Occurrence
  | ⟨id, target, value⟩ =>
    ⟨⟨id, target, value⟩, enclosing⟩ ::
      (value.occurrences enclosing ++ target.occurrences enclosing)

/-- The assignments at or below several assignments, those of the last first. -/
def Assignment.allOccurrences (enclosing : Statement) : List Assignment → List Occurrence
  | [] => []
  | a :: as => Assignment.allOccurrences enclosing as ++ a.occurrences enclosing

/-- The assignments in a function body; each is enclosed by a statement of that body. -/
def FunctionLiteral.occurrences : FunctionLiteral → List Occurrence
  | ⟨_, body, _, _⟩ => Statement.allOccurrences body

/-- The assignments at or below a statement. -/
def Statement.occurrences : Statement → List Occurrence
  | ⟨id, text, form⟩ => form.occurrences ⟨id, text, form⟩

/-- The assignments in several statements, those of the last statement first. -/
def Statement.allOccurrences : List Statement → List Occurrence
  | [] => []
  | s :: ss => Statement.allOccurrences ss ++ s.occurrences

/-- The assignments in a statement of this form. -/
def Form.occurrences (enclosing : Statement) : Form → List Occurrence
  | .expr e => e.occurrences enclosing
  | .ret none => []
  | .ret (some e) => e.occurrences enclosing
  | .decl _ _ none => []
  | .decl _ _ (some e) => e.occurrences enclosing
  | .other assignments => Assignment.allOccurrences enclosing assignments

end

theorem Statement.occurrences_eq (s : Statement) : s.occurrences = s.form.occurrences s := by
  cases s
  rw [Statement.occurrences]

theorem Assignment.occurrences_eq (enclosing : Statement) (a : Assignment) :
    a.occurrences enclosing =
      ⟨a, enclosing⟩ :: (a.value.occurrences enclosing ++ a.target.occurrences enclosing) := by
  cases a
  rw [Assignment.occurrences]

theorem FunctionLiteral.occurrences_eq (f : FunctionLiteral) :
    f.occurrences = Statement.allOccurrences f.body := by
  cases f
  rw [FunctionLiteral.occurrences]

end OverrideElision
