import OverrideElision.Json
import OverrideElision.Report.Listing

/-! # Reports as JSON -/

namespace OverrideElision

/-- The kind of a parameter in a report. -/
def ParamKind.label : ParamKind → String
  | .required => "required"
  | .optional => "optional"
  | .rest => "rest"

namespace Report

/-- A class in a report. -/
def classJson (name : String) (declaration : ClassDeclaration) : Json :=
  .object [("name", .string name), ("extends", .ofString? declaration.superType),
    ("superClass", .ofString? declaration.superClass),
    ("immediateSuper", .ofString? declaration.immediateSuper?)]

/-- A parameter in a report. -/
def paramJson (param : Param) : Json :=
  .object [("name", .string param.name), ("kind", .string param.kind.label)]

/-- A removed definition in a report. -/
def removedJson (definition : MethodDefinition) : Json :=
  .object [("owner", .string definition.member.owner), ("name", .string definition.member.name),
    ("params", .array (definition.params.map paramJson)), ("source", .string definition.scriptName)]

/-- A duplicate member in a report. -/
def duplicateJson (member : Member) (record : DefinitionRecord) : Json :=
  .object [("owner", .string member.owner), ("name", .string member.name),
    ("count", .number record.count), ("sources", .array (record.scripts.toList.map .string)),
    ("suppressed", .bool record.suppressed)]

/-- The report as a JSON value. -/
def toJson (report : Report) : Json :=
  .object [
    ("classes", .array (report.sortedClasses.map fun (name, declaration) =>
      classJson name declaration)),
    ("candidates", .number report.candidates),
    ("removed", .array (report.removed.map removedJson)),
    ("duplicates", .array (report.sortedDuplicates.map fun (member, record) =>
      duplicateJson member record))]

end Report

end OverrideElision
