import OverrideElision.Tree.Program
import OverrideElision.Tree.Walk

/-! # The index of class members

Two tables by member, filled side by side in one pass over the statements of a program: the methods
that its top-level statements define, and the assignments that a walk finds in them. -/

namespace OverrideElision

/-- The assignment to a member that an occurrence in the script is. -/
def Script.memberAssignment? (script : Script) (o : Occurrence) : Option MemberAssignment :=
  o.assignment.target.member?.map fun member =>
    ⟨member, o.assignment, o.enclosing, script.name⟩

theorem Script.memberAssignments_eq_filterMap (script : Script) (s : Statement) :
    script.memberAssignments s = s.occurrences.filterMap script.memberAssignment? :=
  rfl

/-- The definitions of and the assignments to every member. -/
structure Index where
  methods : Table Member (List MethodDefinition) := ∅
  assignments : Table Member (List MemberAssignment) := ∅

namespace Index

/-- Takes in the method that a statement defines, if it does. -/
def addMethod (script : Script) (s : Statement) (index : Index) : Index :=
  match script.definition? s with
  | none => index
  | some d => { index with methods := index.methods.push d.member d }

/-- Takes in an assignment, if it is one to a member. -/
def addAssignment (script : Script) (index : Index) (o : Occurrence) : Index :=
  match script.memberAssignment? o with
  | none => index
  | some x => { index with assignments := index.assignments.push x.member x }

/-- Takes in a top-level statement: its method, then the assignments found in it. -/
def addStatement (script : Script) (index : Index) (s : Statement) : Index :=
  s.walk.foldl (addAssignment script) (index.addMethod script s)

/-- Takes in the statements of a script. -/
def addScript (index : Index) (script : Script) : Index :=
  script.statements.foldl (addStatement script) index

/-- The definitions of a member. -/
def definitionsOf (index : Index) (member : Member) : List MethodDefinition :=
  index.methods.itemsAt member

/-- The assignments to a member. -/
def assignmentsTo (index : Index) (member : Member) : List MemberAssignment :=
  index.assignments.itemsAt member

/-- The only definition of a member that has no other assignment. -/
def ownMethod? (index : Index) (member : Member) : Option MethodDefinition :=
  if (index.definitionsOf member).length ≠ 1 ∨ (index.assignmentsTo member).length ≠ 1 then none
  else (index.definitionsOf member).head?

end Index

/-- The index of a program. -/
def Program.index (program : Program) : Index :=
  program.scripts.foldl Index.addScript {}

end OverrideElision
