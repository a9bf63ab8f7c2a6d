import OverrideElision.Options
import OverrideElision.Tree.Program

/-! # What a run remembers

The assignments to each class member that were seen so far. Runs over several programs may share a
context; a member that was assigned in one of them counts in all the later ones. -/

namespace OverrideElision

/-- The distinct assignments seen to one member, the scripts they stood in, and whether one of them
was marked as an intended duplicate. -/
structure DefinitionRecord where
  assignments : List Nat := []
  scripts : NameSet := ∅
  suppressed : Bool := false
  assignments_nodup : assignments.Nodup := by exact .nil
deriving DecidableEq

namespace DefinitionRecord

/-- How many assignments were seen. -/
def count (record : DefinitionRecord) : Nat := record.assignments.length

/-- The record with one more sighting. An assignment seen before is not counted again. -/
def add (record : DefinitionRecord) (assignment : Nat) (script : String) (marked : Bool) :
    DefinitionRecord where
  assignments :=
    if assignment ∈ record.assignments then record.assignments
    else record.assignments ++ [assignment]
  scripts := record.scripts.insert script
  suppressed := record.suppressed || marked
  assignments_nodup := by
    split
    · exact record.assignments_nodup
    · rename_i hnot
      exact Table.nodup_append_singleton record.assignments_nodup hnot

end DefinitionRecord

/-- The options of a run and its records, in the order in which the members were first seen. -/
structure Context where
  options : Options := {}
  records : Table Member DefinitionRecord := ∅

namespace Context

/-- Notes an assignment to a member, with the documentation of the statement around it. -/
def note (context : Context) (member : Member) (assignment : Nat) (script : String)
    (info : Doc.Info) : Context :=
  { context with
    records := context.records.alter member fun record =>
      (record.getD {}).add assignment script
        (decide (context.options.duplicateSuppression ∈ info.suppressions)) }

/-- Notes every assignment to a class member in a program. -/
def noteAll (context : Context) (annotations : Annotations)
    (assignments : List MemberAssignment) : Context :=
  assignments.foldl (fun context a =>
    context.note a.member a.assignment.id a.scriptName (annotations.info a.enclosing)) context

/-- The record of a member. -/
def record? (context : Context) (member : Member) : Option DefinitionRecord :=
  context.records.get? member

/-- A member with more than one assignment. An intended duplicate is one too: with two definitions
there is no telling which one counts. -/
def isDuplicated (context : Context) (member : Member) : Bool :=
  (context.record? member).any (1 < ·.count)

/-- The members with more than one assignment. -/
def duplicates (context : Context) : Table Member DefinitionRecord :=
  context.records.filter (1 < ·.count)

end Context

end OverrideElision
