import OverrideElision.Doc.Info
import OverrideElision.Table
import OverrideElision.Tree.Occurrence
import OverrideElision.Tree.Reference
import OverrideElision.Tree.Source

/-! # Programs

A program is a list of scripts, one for each source, with the documentation of their statements. -/

namespace OverrideElision

/-- The documentation of statements, by the identity of the statement. -/
abbrev Annotations := Table Nat Doc.Info

/-- What is documented about a statement; nothing when it has no entry. -/
def Annotations.info (annotations : Annotations) (s : Statement) : Doc.Info :=
  (annotations.get? s.id).getD {}

/-- The statements of one source. The identity tells scripts apart whose names are equal. -/
structure Script where
  id : Nat
  name : String
  statements : List Statement

/-- All scripts of one run and the documentation of their statements. -/
structure Program where
  scripts : List Script
  annotations : Annotations

/-- The statements of a script, one after the other on lines of their own. -/
def Script.source (script : Script) : String :=
  "\n".intercalate (script.statements.map Statement.source)

/-- The scripts of a program, one after the other. -/
def Program.source (program : Program) : String :=
  "\n".intercalate (program.scripts.map Script.source)

/-- The program in which every statement prints as its tree. -/
def Program.forgetText (program : Program) : Program :=
  { program with
    scripts := program.scripts.map fun script =>
      { script with statements := Statement.forgetTexts script.statements } }

/-- A definition `Owner.prototype.name = function (...) ...` as a top-level statement. -/
structure MethodDefinition where
  member : Member
  function : FunctionLiteral
  statement : Statement
  script : Nat
  scriptName : String

namespace MethodDefinition

/-- The formal parameters of the method. -/
def params (definition : MethodDefinition) : List Param := definition.function.params

/-- The statements of the method. -/
def body (definition : MethodDefinition) : List Statement := definition.function.body

end MethodDefinition

/-- The class member and the function literal of a statement that assigns one to the other. -/
def Statement.method? (s : Statement) : Option (Member × FunctionLiteral) :=
  match s.form with
  | .expr (.assign ⟨_, target, .function literal⟩) => target.member?.map (·, literal)
  | _ => none

/-- The method that a statement of `script` defines. -/
def Script.definition? (script : Script) (s : Statement) : Option MethodDefinition :=
  s.method?.map fun (member, literal) => ⟨member, literal, s, script.id, script.name⟩

/-- An assignment to a class member, wherever it stands: the member, the assignment with its
innermost statement, and the name of the script. -/
structure MemberAssignment where
  member : Member
  assignment : Assignment
  enclosing : Statement
  scriptName : String

/-- The assignments to class members in a statement of the script. -/
def Script.memberAssignments (script : Script) (s : Statement) : List MemberAssignment :=
  s.occurrences.filterMap fun occurrence =>
    occurrence.assignment.target.member?.map fun member =>
      ⟨member, occurrence.assignment, occurrence.enclosing, script.name⟩

/-- The method definitions of a program, in the order of their statements. -/
def Program.definitions (program : Program) : List MethodDefinition :=
  program.scripts.flatMap fun script => script.statements.filterMap script.definition?

/-- The assignments to class members anywhere in a program. -/
def Program.memberAssignments (program : Program) : List MemberAssignment :=
  program.scripts.flatMap fun script => script.statements.flatMap script.memberAssignments

end OverrideElision
