import OverrideElision.Tree.Program

/-! # The class hierarchy

A class declares its superclass twice: its documentation names it with `@extends`, and a statement
`Sub.superClass_ = Base.prototype` links the two. Only when both are there, agree, and nothing in
the program contradicts them, is the superclass confirmed. -/

namespace OverrideElision

/-- What one top-level statement says about the classes of a program. -/
inductive ClassFact where
  /-- The class exists, and its documentation names this superclass, if any. -/
  | declares (name : String) (superType : Option String)
  /-- The superclass link of `name` leads to `base`. -/
  | links (name base : String)
deriving DecidableEq, Repr

/-- What an assignment with this documentation says about classes. A documented declaration is not
read as a link, whatever it assigns. -/
def Assignment.classFact? (info : Doc.Info) (a : Assignment) : Option ClassFact :=
  match a.target.qualifiedName? with
  | none => none
  | some name =>
    if info.declaresClass then some (.declares name info.superType)
    else match a.target.linkOf?, a.value.prototypeOf? with
      | some sub, some base => some (.links sub base)
      | _, _ => none

/-- What a statement says about classes. A method definition says nothing. -/
def Annotations.classFact? (annotations : Annotations) (s : Statement) : Option ClassFact :=
  match s.form with
  | .decl _ name _ =>
    let info := annotations.info s
    if info.declaresClass then some (.declares name info.superType) else none
  | .expr (.assign a) => if s.method?.isSome then none else a.classFact? (annotations.info s)
  | _ => none

/-- What is known of a class: the first superclass type documented and the first link found. -/
structure ClassDeclaration where
  superType : Option String := none
  superClass : Option String := none
deriving DecidableEq, Repr

/-- The superclass that the documentation and the link agree on. -/
def ClassDeclaration.immediateSuper? (declaration : ClassDeclaration) : Option String :=
  match declaration.superType, declaration.superClass with
  | some documented, some linked =>
    if documented = linked ∧ documented ≠ "" then some documented else none
  | _, _ => none

/-- A fact that contradicts one found before it. -/
inductive Conflict where
  | superType (name : String)
  | superClass (name : String)
deriving DecidableEq, Repr

/-- The class that a conflict is about. -/
def Conflict.name : Conflict → String
  | .superType name => name
  | .superClass name => name

/-- The classes of a program in the order in which facts about them were found, and the conflicts
between these facts. -/
structure ClassTable where
  classes : Table String ClassDeclaration := ∅
  conflicts : List Conflict := []

namespace ClassTable

/-- Takes in one fact. The first value of either kind stays; a later one that differs from it is a
conflict. -/
def add (table : ClassTable) : ClassFact → ClassTable
  | .declares name superType =>
    let known := table.classes.get? name
    { classes := table.classes.alter name fun known =>
        let declaration := known.getD {}
        { declaration with superType := declaration.superType.or superType }
      conflicts :=
        match known.bind ClassDeclaration.superType, superType with
        | some old, some new =>
          if old = new then table.conflicts else table.conflicts ++ [.superType name]
        | _, _ => table.conflicts }
  | .links name base =>
    let known := table.classes.get? name
    { classes := table.classes.alter name fun known =>
        let declaration := known.getD {}
        { declaration with superClass := declaration.superClass.or (some base) }
      conflicts :=
        match known.bind ClassDeclaration.superClass with
        | some old =>
          if old = base then table.conflicts else table.conflicts ++ [.superClass name]
        | none => table.conflicts }

/-- The table of all the facts of a list. -/
def ofFacts (facts : List ClassFact) : ClassTable :=
  facts.foldl add {}

end ClassTable

/-- The facts about classes that the top-level statements of a program state. -/
def Program.classFacts (program : Program) (annotations : Annotations) : List ClassFact :=
  program.scripts.flatMap fun script => script.statements.filterMap annotations.classFact?

/-- What a program defines: its classes, its methods, and all its assignments to class members. -/
structure Hierarchy where
  table : ClassTable
  definitions : List MethodDefinition
  assignments : List MemberAssignment

/-- The hierarchy of a program under the given documentation. -/
def Program.hierarchy (program : Program) (annotations : Annotations) : Hierarchy where
  table := .ofFacts (program.classFacts annotations)
  definitions := program.definitions
  assignments := program.memberAssignments

namespace Hierarchy

/-- The confirmed superclass of a class. A class with conflicting facts has none. -/
def immediateSuper? (hierarchy : Hierarchy) (name : String) : Option String :=
  if hierarchy.table.conflicts.any (·.name = name) then none
  else (hierarchy.table.classes.get? name).bind ClassDeclaration.immediateSuper?

/-- The definitions of a member. -/
def definitionsOf (hierarchy : Hierarchy) (member : Member) : List MethodDefinition :=
  hierarchy.definitions.filter (·.member = member)

/-- The assignments to a member anywhere in the program. -/
def assignmentsTo (hierarchy : Hierarchy) (member : Member) : List MemberAssignment :=
  hierarchy.assignments.filter (·.member = member)

/-- The definition of a member that is defined once and not assigned anywhere else. -/
def ownMethod? (hierarchy : Hierarchy) (member : Member) : Option MethodDefinition :=
  match hierarchy.definitionsOf member, hierarchy.assignmentsTo member with
  | [definition], [_] => some definition
  | _, _ => none

/-- The definition that a statement is. A statement that stands in several scripts defines its
method in the last of them. -/
def definitionOf? (hierarchy : Hierarchy) (s : Statement) : Option MethodDefinition :=
  (hierarchy.definitions.filter (·.statement.id = s.id)).getLast?

end Hierarchy

end OverrideElision
