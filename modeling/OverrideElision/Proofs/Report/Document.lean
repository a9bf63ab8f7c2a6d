import OverrideElision.Proofs.Json.Reading
import OverrideElision.Proofs.Report.Contents
import OverrideElision.Report.Document
import OverrideElision.Report.Summary

/-! # Reports read back

The contents of a report are read back from its document, and the document and the summary show
nothing but the contents. -/

namespace OverrideElision

open List

namespace Report

/-! ## What is shown -/

/-- A function of what two lists show alike is alike on them. -/
theorem map_eq_map_of_shown {α β γ : Type} {shown : α → β} {f : α → γ}
    (hf : ∀ x y, shown x = shown y → f x = f y) {xs ys : List α}
    (h : xs.map shown = ys.map shown) : xs.map f = ys.map f := by
  induction xs generalizing ys with
  | nil => rw [map_eq_nil_iff.mp h.symm]
  | cons x xs ih =>
    obtain ⟨y, ys, rfl, hy, hys⟩ := map_eq_cons_iff.mp h.symm
    rw [map_cons, map_cons, hf x y hy.symm, ih hys.symm]

theorem classJson_eq_of_shown (a b : String × ClassDeclaration)
    (h : shownClass a.1 a.2 = shownClass b.1 b.2) : classJson a.1 a.2 = classJson b.1 b.2 := by
  obtain ⟨hname, htype, hlink, himmediate⟩ := ShownClass.mk.inj h
  rw [classJson, classJson, hname, htype, hlink, himmediate]

theorem classLine_eq_of_shown (a b : String × ClassDeclaration)
    (h : shownClass a.1 a.2 = shownClass b.1 b.2) : classLine a.1 a.2 = classLine b.1 b.2 := by
  obtain ⟨hname, htype, hlink, himmediate⟩ := ShownClass.mk.inj h
  rw [classLine, classLine, hname, htype, hlink, himmediate]

theorem removedJson_eq_of_shown (a b : MethodDefinition) (h : shownRemoval a = shownRemoval b) :
    removedJson a = removedJson b := by
  obtain ⟨howner, hname, hparams, hsource⟩ := ShownRemoval.mk.inj h
  have hparams : a.params.map paramJson = b.params.map paramJson := by
    refine map_eq_map_of_shown (fun p q hshown => ?_) hparams
    obtain ⟨hname, hkind⟩ := ShownParam.mk.inj hshown
    rw [paramJson, paramJson, hname, hkind]
  rw [removedJson, removedJson, howner, hname, hparams, hsource]

theorem removedLine_eq_of_shown (a b : MethodDefinition) (h : shownRemoval a = shownRemoval b) :
    removedLine a = removedLine b := by
  obtain ⟨howner, hname, hparams, hsource⟩ := ShownRemoval.mk.inj h
  have hparams : a.params.map Param.name = b.params.map Param.name :=
    map_eq_map_of_shown (fun _ _ hshown => (ShownParam.mk.inj hshown).1) hparams
  rw [removedLine, removedLine, Member.source, Member.source, howner, hname, hparams, hsource]

theorem duplicateJson_eq_of_shown (a b : Member × DefinitionRecord)
    (h : shownDuplicate a.1 a.2 = shownDuplicate b.1 b.2) :
    duplicateJson a.1 a.2 = duplicateJson b.1 b.2 := by
  obtain ⟨howner, hname, hcount, hsources, hsuppressed⟩ := ShownDuplicate.mk.inj h
  rw [duplicateJson, duplicateJson, howner, hname, hcount, hsources, hsuppressed]

theorem duplicateLine_eq_of_shown (a b : Member × DefinitionRecord)
    (h : shownDuplicate a.1 a.2 = shownDuplicate b.1 b.2) :
    duplicateLine a.1 a.2 = duplicateLine b.1 b.2 := by
  obtain ⟨howner, hname, hcount, hsources, hsuppressed⟩ := ShownDuplicate.mk.inj h
  rw [duplicateLine, duplicateLine, Member.source, Member.source, howner, hname, hcount, hsources,
    hsuppressed]

theorem toJson_eq_of_contents {a b : Report} (h : a.contents = b.contents) :
    a.toJson = b.toJson := by
  obtain ⟨hclasses, hcandidates, hremoved, hduplicates⟩ := Contents.mk.inj h
  rw [toJson, toJson, hcandidates, map_eq_map_of_shown classJson_eq_of_shown hclasses,
    map_eq_map_of_shown removedJson_eq_of_shown hremoved,
    map_eq_map_of_shown duplicateJson_eq_of_shown hduplicates]

theorem summary_eq_of_contents {a b : Report} (h : a.contents = b.contents) :
    a.summary = b.summary := by
  obtain ⟨hclasses, hcandidates, hremoved, hduplicates⟩ := Contents.mk.inj h
  have hlengthRemoved : a.removed.length = b.removed.length := by
    simpa using congrArg length hremoved
  have hlengthDuplicates : a.sortedDuplicates.length = b.sortedDuplicates.length := by
    simpa using congrArg length hduplicates
  have hlines := map_eq_map_of_shown duplicateLine_eq_of_shown hduplicates
  have hsection : a.summaryLines = b.summaryLines := by
    rw [summaryLines, summaryLines, hcandidates, hlengthRemoved,
      map_eq_map_of_shown classLine_eq_of_shown hclasses,
      map_eq_map_of_shown removedLine_eq_of_shown hremoved]
    congr 1
    cases ha : a.sortedDuplicates with
    | nil =>
      rw [ha] at hlengthDuplicates
      rw [length_eq_zero_iff.mp hlengthDuplicates.symm]
    | cons x xs =>
      obtain ⟨y, ys, hb⟩ := exists_cons_of_length_pos
        (by rw [← hlengthDuplicates, ha]; exact Nat.succ_pos _ : 0 < b.sortedDuplicates.length)
      rw [ha, hb] at hlines hlengthDuplicates
      rw [hb]
      exact congrArg₂ (fun (count : Nat) lines =>
        "" :: ("=== DUPLICATE DEFINITIONS (" ++ toString count ++ ") ===") :: lines)
        hlengthDuplicates hlines
  rw [summary, summary, hsection]

end Report

/-! ## Reading a report back -/

/-- The kind with this label. -/
def ParamKind.ofLabel? (label : String) : Option ParamKind :=
  [ParamKind.required, .optional, .rest].find? (·.label = label)

namespace Json

/-- The member of an object with this name. -/
def member? (name : String) : Json → Option Json
  | .object members => members.lookup name
  | _ => none

/-- The items of an array, each as `read?` has it. -/
def items? {α : Type} (read? : Json → Option α) : Json → Option (List α)
  | .array items => items.mapM read?
  | _ => none

def string? : Json → Option String
  | .string s => some s
  | _ => none

/-- A string, or nothing where there is a null. -/
def stringOrNull? : Json → Option (Option String)
  | .null => some none
  | .string s => some (some s)
  | _ => none

def number? : Json → Option Nat
  | .number n => some n
  | _ => none

def bool? : Json → Option Bool
  | .bool value => some value
  | _ => none

theorem stringOrNull?_ofString? (s : Option String) : stringOrNull? (ofString? s) = some s := by
  cases s <;> rfl

theorem items?_map {α γ : Type} {read? : Json → Option γ} {write : α → Json} {shown : α → γ}
    (h : ∀ x, read? (write x) = some (shown x)) (xs : List α) :
    items? read? (.array (xs.map write)) = some (xs.map shown) := by
  induction xs with
  | nil => rfl
  | cons x xs ih =>
    rw [items?] at ih ⊢
    simp [h x, ih]

end Json

namespace Report

/-- A class as it is read back. -/
def ShownClass.ofJson? (json : Json) : Option ShownClass := do
  let name ← (← json.member? "name").string?
  let superType ← (← json.member? "extends").stringOrNull?
  let superClass ← (← json.member? "superClass").stringOrNull?
  let immediateSuper ← (← json.member? "immediateSuper").stringOrNull?
  return { name, superType, superClass, immediateSuper }

/-- A parameter as it is read back. -/
def ShownParam.ofJson? (json : Json) : Option ShownParam := do
  let name ← (← json.member? "name").string?
  let kind ← ParamKind.ofLabel? (← (← json.member? "kind").string?)
  return { name, kind }

/-- A removed definition as it is read back. -/
def ShownRemoval.ofJson? (json : Json) : Option ShownRemoval := do
  let owner ← (← json.member? "owner").string?
  let name ← (← json.member? "name").string?
  let params ← (← json.member? "params").items? ShownParam.ofJson?
  let source ← (← json.member? "source").string?
  return { owner, name, params, source }

/-- A duplicate member as it is read back. -/
def ShownDuplicate.ofJson? (json : Json) : Option ShownDuplicate := do
  let owner ← (← json.member? "owner").string?
  let name ← (← json.member? "name").string?
  let count ← (← json.member? "count").number?
  let sources ← (← json.member? "sources").items? Json.string?
  let suppressed ← (← json.member? "suppressed").bool?
  return { owner, name, count, sources, suppressed }

/-- The contents of a report as they are read back. -/
def Contents.ofJson? (json : Json) : Option Contents := do
  let classes ← (← json.member? "classes").items? ShownClass.ofJson?
  let candidates ← (← json.member? "candidates").number?
  let removed ← (← json.member? "removed").items? ShownRemoval.ofJson?
  let duplicates ← (← json.member? "duplicates").items? ShownDuplicate.ofJson?
  return { classes, candidates, removed, duplicates }

theorem ofJson?_classJson (name : String) (declaration : ClassDeclaration) :
    ShownClass.ofJson? (classJson name declaration) = some (shownClass name declaration) := by
  simp [ShownClass.ofJson?, classJson, shownClass, Json.member?, lookup_cons, Json.string?,
    Json.stringOrNull?_ofString?]

theorem ofJson?_paramJson (param : Param) :
    ShownParam.ofJson? (paramJson param) = some ⟨param.name, param.kind⟩ := by
  have hkind (kind : ParamKind) : ParamKind.ofLabel? kind.label = some kind := by
    cases kind <;> decide
  simp [ShownParam.ofJson?, paramJson, Json.member?, lookup_cons, Json.string?, hkind]

theorem ofJson?_removedJson (definition : MethodDefinition) :
    ShownRemoval.ofJson? (removedJson definition) = some (shownRemoval definition) := by
  simp [ShownRemoval.ofJson?, removedJson, shownRemoval, Json.member?, lookup_cons, Json.string?,
    Json.items?_map ofJson?_paramJson]

theorem ofJson?_duplicateJson (member : Member) (record : DefinitionRecord) :
    ShownDuplicate.ofJson? (duplicateJson member record) = some (shownDuplicate member record) := by
  have hsources : (Json.array (record.scripts.toList.map .string)).items? Json.string? =
      some (record.scripts.toList.map id) :=
    Json.items?_map (fun s => show Json.string? (.string s) = some (id s) from rfl) _
  rw [map_id] at hsources
  simp [ShownDuplicate.ofJson?, duplicateJson, shownDuplicate, Json.member?, lookup_cons,
    Json.string?, Json.number?, Json.bool?, hsources]

theorem ofJson?_toJson (report : Report) :
    Contents.ofJson? report.toJson = some report.contents := by
  have hclasses := Json.items?_map (fun x => ofJson?_classJson x.1 x.2) report.sortedClasses
  have hremoved := Json.items?_map ofJson?_removedJson report.removed
  have hduplicates := Json.items?_map (fun x => ofJson?_duplicateJson x.1 x.2)
    report.sortedDuplicates
  simp [Contents.ofJson?, toJson, contents, Json.member?, lookup_cons, Json.number?, hclasses,
    hremoved, hduplicates]

/-- The contents that are read in a document. -/
def Contents.ofDocument? (document : String) : Option Contents :=
  (Json.ofText? document).bind ofJson?

theorem ofDocument?_document (report : Report) :
    Contents.ofDocument? report.toJson.document = some report.contents := by
  rw [Contents.ofDocument?, Json.ofText?_document, Option.bind_some, ofJson?_toJson]

/-- The document of a report is in ASCII, says what the report contains, and says it in one way:
reports that agree, and no others, have the same document, and they have the same summary. The order
in which the tables were filled shows in neither. -/
theorem toJson_document (report : Report) :
    Json.IsAscii report.toJson.document.toList ∧
      (∃ contents, Contents.ofDocument? report.toJson.document = some contents ∧
        contents.Describes report) ∧
      ∀ other : Report,
        (other.toJson.document = report.toJson.document ↔ SameContents other report) ∧
          (SameContents other report → other.summary = report.summary) ∧
          (other.Reorders report →
            other.toJson.document = report.toJson.document ∧ other.summary = report.summary) := by
  have hsame {other : Report} (h : SameContents other report) :
      other.toJson.document = report.toJson.document ∧ other.summary = report.summary := by
    have hcontents := contents_eq_iff.mpr h
    exact ⟨by rw [toJson_eq_of_contents hcontents], summary_eq_of_contents hcontents⟩
  refine ⟨Json.isAscii_document _, ⟨_, ofDocument?_document report, report.contents_describes⟩,
    fun other => ⟨⟨fun h => ?_, fun h => (hsame h).1⟩, fun h => (hsame h).2,
      fun h => hsame h.sameContents⟩⟩
  have hcontents := other.ofDocument?_document
  rw [h, ofDocument?_document, Option.some.injEq] at hcontents
  exact contents_eq_iff.mp hcontents.symm

end Report

end OverrideElision
