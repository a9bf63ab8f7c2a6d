import OverrideElision.Report.Listing

/-! # Reports for readers -/

namespace OverrideElision.Report

/-- What a summary shows where a superclass is not stated. -/
def missing : String := "None"

/-- The line of a class: its confirmed superclass, or what is claimed about one. -/
def classLine (name : String) (declaration : ClassDeclaration) : String :=
  let stated (superclass : Option String) := superclass.any (· ≠ "")
  " - " ++ name ++ match declaration.immediateSuper? with
    | some superclass => " extends " ++ superclass
    | none =>
      if stated declaration.superType || stated declaration.superClass then
        " (unconfirmed: @extends " ++ declaration.superType.getD missing ++ ", superClass_ " ++
          declaration.superClass.getD missing ++ ")"
      else ""

/-- The line of a removed definition. -/
def removedLine (definition : MethodDefinition) : String :=
  "  - " ++ definition.member.source ++ "(" ++
    ", ".intercalate (definition.params.map Param.name) ++ ")  @ " ++ definition.scriptName

/-- The line of a duplicate member. -/
def duplicateLine (member : Member) (record : DefinitionRecord) : String :=
  "  - " ++ member.source ++ " x" ++ toString record.count ++ "  @ " ++
    ", ".intercalate record.scripts.toList ++
    (if record.suppressed then "  (@suppress \x7bduplicate\x7d)" else "")

/-- The lines of the summary. Duplicates have a section only when there are some. -/
def summaryLines (report : Report) : List String :=
  "" :: "=== CLASSES ===" :: report.sortedClasses.map (fun (name, declaration) =>
      classLine name declaration) ++
    ["", "=== REMOVED OVERRIDES (" ++ toString report.removed.length ++ " of " ++
      toString report.candidates ++ " candidates) ==="] ++
    report.removed.map removedLine ++
    match report.sortedDuplicates with
    | [] => []
    | duplicates =>
      "" :: ("=== DUPLICATE DEFINITIONS (" ++ toString duplicates.length ++ ") ===") ::
        duplicates.map fun (member, record) => duplicateLine member record

/-- The summary as printed. -/
def summary (report : Report) : String :=
  String.join (report.summaryLines.map (· ++ "\n"))

end OverrideElision.Report
