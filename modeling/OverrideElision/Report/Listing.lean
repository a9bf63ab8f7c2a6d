import OverrideElision.Elision

/-! # Listings of a report

Reports list classes by name and duplicate members by owner and name, both in code-point order, so
that a listing does not depend on the order in which they were found. -/

namespace OverrideElision.Report

/-- The classes, by name. -/
def sortedClasses (report : Report) : List (String × ClassDeclaration) :=
  report.classes.entries.mergeSort fun a b => a.1 ≤ b.1

/-- The duplicate members, by owner and name. -/
def sortedDuplicates (report : Report) : List (Member × DefinitionRecord) :=
  report.duplicates.entries.mergeSort fun a b => a.1.le b.1

end OverrideElision.Report
