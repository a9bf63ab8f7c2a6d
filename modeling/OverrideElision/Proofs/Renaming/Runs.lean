import Mathlib.Data.List.Induction
import Mathlib.Data.List.Nodup
import Mathlib.Logic.Embedding.Basic
import OverrideElision.Proofs.Renaming.Trees
import OverrideElision.Report.Document
import OverrideElision.Report.Summary

/-! # Runs under other identities

The identities of statements and assignments only tell them apart. When they get other ones, and
different ones again, a run does the same with the program, and shows nothing of the change. -/

namespace OverrideElision

open List

/-! ## Tables -/

namespace Table

variable {κ μ α β : Type}

/-- The table with other keys and values. -/
def map (key : κ ↪ μ) (value : α → β) (table : Table κ α) : Table μ β where
  entries := table.entries.map (Prod.map key value)
  keys_nodup := by
    have hkeys : (table.entries.map (Prod.map key value)).map Prod.fst =
        (table.entries.map Prod.fst).map key := by simp
    rw [hkeys]
    exact table.keys_nodup.map key.injective

variable [DecidableEq κ] [DecidableEq μ] (key : κ ↪ μ) (value : α → β)

theorem lookup_map (entries : List (κ × α)) (k : κ) :
    (entries.map (Prod.map key value)).lookup (key k) = (entries.lookup k).map value := by
  induction entries with
  | nil => rfl
  | cons entry rest ih =>
    obtain ⟨first, v⟩ := entry
    by_cases hk : k = first
    · simp [hk]
    · have hkey : key k ≠ key first := fun h => hk (key.injective h)
      simp [lookup_cons, beq_false_of_ne hk, beq_false_of_ne hkey, ih]

theorem get?_map (table : Table κ α) (k : κ) :
    (table.map key value).get? (key k) = (table.get? k).map value :=
  lookup_map key value table.entries k

theorem alterIn_map {change : Option α → α} {change' : Option β → β}
    (h : ∀ old, change' (old.map value) = value (change old)) (k : κ) (entries : List (κ × α)) :
    alterIn (key k) change' (entries.map (Prod.map key value)) =
      (alterIn k change entries).map (Prod.map key value) := by
  induction entries with
  | nil => simp [alterIn, ← h]
  | cons entry rest ih =>
    obtain ⟨first, v⟩ := entry
    by_cases hk : first = k
    · simp [alterIn, hk, ← h]
    · simp [alterIn, hk, ih]

theorem alter_map {change : Option α → α} {change' : Option β → β}
    (h : ∀ old, change' (old.map value) = value (change old)) (k : κ) (table : Table κ α) :
    (table.map key value).alter (key k) change' = (table.alter k change).map key value :=
  Table.ext (alterIn_map key value h k table.entries)

theorem ofList_map (entries : List (κ × α)) :
    ofList (entries.map (Prod.map key id)) = (ofList entries).map key id := by
  induction entries using List.reverseRecOn with
  | nil => rfl
  | append_singleton entries entry ih =>
    have hlast : (ofList (entries.map (Prod.map key id))).insert (key entry.1) entry.2 =
        ((ofList entries).insert entry.1 entry.2).map key id := by
      rw [ih]
      exact alter_map key id (fun _ => rfl) entry.1 (ofList entries)
    simpa [ofList] using hlast

omit [DecidableEq κ] [DecidableEq μ] in
theorem filter_map {p : α → Bool} {q : β → Bool} (h : ∀ v, q (value v) = p v)
    (table : Table κ α) : (table.map key value).filter q = (table.filter p).map key value := by
  refine Table.ext ?_
  simp [filter, map, List.filter_map, Function.comp_def, h]

end Table

/-! ## Programs -/

section

variable (f : Nat ↪ Nat)

/-- The method definition with other identities in it. -/
def MethodDefinition.renamed (d : MethodDefinition) : MethodDefinition :=
  { d with function := d.function.renamed f, statement := d.statement.renamed f }

/-- The assignment to a member with other identities in it. -/
def MemberAssignment.renamed (a : MemberAssignment) : MemberAssignment :=
  { a with assignment := a.assignment.renamed f, enclosing := a.enclosing.renamed f }

/-- The script with other identities in it. -/
def Script.renamed (script : Script) : Script :=
  { script with statements := script.statements.map (Statement.renamed f) }

/-- Documentation of the same statements under other identities. -/
def Annotations.renamed (annotations : Annotations) : Annotations := annotations.map f id

/-- The program with other identities in it. -/
def Program.renamed (program : Program) : Program where
  scripts := program.scripts.map (Script.renamed f)
  annotations := program.annotations.renamed f

theorem Script.source_renamed (script : Script) : (script.renamed f).source = script.source := by
  simp [source, renamed, Function.comp_def, Statement.source_renamed]

theorem Annotations.info_renamed (annotations : Annotations) (s : Statement) :
    (annotations.renamed f).info (s.renamed f) = annotations.info s := by
  rw [info, info, renamed, Statement.id_renamed, Table.get?_map, Option.map_id, id_eq]

theorem Statement.method?_renamed (s : Statement) :
    (s.renamed f).method? =
      s.method?.map fun (member, literal) => (member, literal.renamed f) := by
  obtain ⟨id, text, form⟩ := s
  cases form with
  | expr e =>
    cases e with
    | assign a =>
      obtain ⟨id, target, value⟩ := a
      cases value with
      | function literal =>
        simp [renamed, method?, Form.renamed, Expr.renamed, Assignment.renamed, Function.comp_def]
      | _ => rfl
    | _ => rfl
  | ret value => cases value <;> rfl
  | decl keyword name value => cases value <;> rfl
  | other => rfl

theorem Script.definition?_renamed (script : Script) (s : Statement) :
    (script.renamed f).definition? (s.renamed f) =
      (script.definition? s).map (MethodDefinition.renamed f) := by
  rw [definition?, definition?, Statement.method?_renamed, Option.map_map, Option.map_map]
  rfl

theorem Script.memberAssignments_renamed (script : Script) (s : Statement) :
    (script.renamed f).memberAssignments (s.renamed f) =
      (script.memberAssignments s).map (MemberAssignment.renamed f) := by
  rw [memberAssignments, memberAssignments, Statement.occurrences_renamed, filterMap_map,
    map_filterMap]
  congr 1
  funext o
  simp [Occurrence.renamed, MemberAssignment.renamed, renamed, Function.comp_def]

namespace Program

variable (program : Program)

theorem definitions_renamed :
    (program.renamed f).definitions = program.definitions.map (MethodDefinition.renamed f) := by
  simp [definitions, renamed, Script.renamed, flatMap_map, map_flatMap, filterMap_map,
    map_filterMap, ← Script.definition?_renamed]

theorem memberAssignments_renamed :
    (program.renamed f).memberAssignments =
      program.memberAssignments.map (MemberAssignment.renamed f) := by
  simp [memberAssignments, renamed, Script.renamed, flatMap_map, map_flatMap,
    ← Script.memberAssignments_renamed]

end Program

/-! ## The hierarchy -/

theorem Assignment.classFact?_renamed (info : Doc.Info) (a : Assignment) :
    (a.renamed f).classFact? info = a.classFact? info := by
  rw [classFact?, classFact?, target_renamed, value_renamed, Expr.qualifiedName?_renamed,
    Expr.linkOf?, Expr.linkOf?, Expr.ownerOf?_renamed, Expr.prototypeOf?, Expr.prototypeOf?,
    Expr.ownerOf?_renamed]

theorem Annotations.classFact?_renamed (annotations : Annotations) (s : Statement) :
    (annotations.renamed f).classFact? (s.renamed f) = annotations.classFact? s := by
  rw [classFact?, classFact?, info_renamed, Statement.method?_renamed, Statement.form_renamed]
  cases s.form with
  | expr e =>
    cases e with
    | assign a => simp [Form.renamed, Expr.renamed, Assignment.classFact?_renamed]
    | _ => rfl
  | ret value => cases value <;> rfl
  | decl keyword name value => cases value <;> rfl
  | other => rfl

theorem Program.classFacts_renamed (program : Program) (annotations : Annotations) :
    (program.renamed f).classFacts (annotations.renamed f) = program.classFacts annotations := by
  simp [classFacts, renamed, Script.renamed, flatMap_map, filterMap_map,
    Annotations.classFact?_renamed]

/-- The hierarchy with other identities in it. -/
def Hierarchy.renamed (hierarchy : Hierarchy) : Hierarchy :=
  { hierarchy with
    definitions := hierarchy.definitions.map (MethodDefinition.renamed f)
    assignments := hierarchy.assignments.map (MemberAssignment.renamed f) }

theorem Program.hierarchy_renamed (program : Program) (annotations : Annotations) :
    (program.renamed f).hierarchy (annotations.renamed f) =
      (program.hierarchy annotations).renamed f := by
  rw [hierarchy, hierarchy, classFacts_renamed, definitions_renamed, memberAssignments_renamed]
  rfl

namespace Hierarchy

variable (hierarchy : Hierarchy)

theorem ownMethod?_renamed (member : Member) :
    (hierarchy.renamed f).ownMethod? member =
      (hierarchy.ownMethod? member).map (MethodDefinition.renamed f) := by
  have hdefinitions : (hierarchy.renamed f).definitionsOf member =
      (hierarchy.definitionsOf member).map (MethodDefinition.renamed f) := by
    rw [definitionsOf, renamed, filter_map]
    rfl
  have hassignments : (hierarchy.renamed f).assignmentsTo member =
      (hierarchy.assignmentsTo member).map (MemberAssignment.renamed f) := by
    rw [assignmentsTo, renamed, filter_map]
    rfl
  rw [ownMethod?, ownMethod?, hdefinitions, hassignments]
  cases hierarchy.definitionsOf member with
  | nil => rfl
  | cons d ds =>
    cases hierarchy.assignmentsTo member with
    | nil => cases ds <;> rfl
    | cons a as => cases ds <;> cases as <;> rfl

theorem definitionOf?_renamed (s : Statement) :
    (hierarchy.renamed f).definitionOf? (s.renamed f) =
      (hierarchy.definitionOf? s).map (MethodDefinition.renamed f) := by
  simp [definitionOf?, renamed, filter_map, Function.comp_def, MethodDefinition.renamed,
    f.injective.eq_iff]

end Hierarchy

/-! ## The records -/

/-- The record of the same assignments under other identities. -/
def DefinitionRecord.renamed (record : DefinitionRecord) : DefinitionRecord :=
  { record with
    assignments := record.assignments.map f
    assignments_nodup := record.assignments_nodup.map f.injective }

theorem DefinitionRecord.count_renamed (record : DefinitionRecord) :
    (record.renamed f).count = record.count :=
  length_map ..

theorem DefinitionRecord.add_renamed (record : DefinitionRecord) (assignment : Nat)
    (script : String) (marked : Bool) :
    (record.renamed f).add (f assignment) script marked =
      (record.add assignment script marked).renamed f := by
  by_cases h : assignment ∈ record.assignments <;>
    simp [add, renamed, h, f.injective.eq_iff]

/-- The context with other identities in its records. -/
def Context.renamed (context : Context) : Context :=
  { context with records := context.records.map (.refl Member) (DefinitionRecord.renamed f) }

namespace Context

variable (context : Context)

theorem note_renamed (member : Member) (assignment : Nat) (script : String) (info : Doc.Info) :
    (context.renamed f).note member (f assignment) script info =
      (context.note member assignment script info).renamed f := by
  let marked := decide (context.options.duplicateSuppression ∈ info.suppressions)
  have hadd : ∀ old : Option DefinitionRecord,
      ((old.map (DefinitionRecord.renamed f)).getD {}).add (f assignment) script marked =
        ((old.getD {}).add assignment script marked).renamed f := by
    intro old
    cases old with
    | none => exact DefinitionRecord.add_renamed f {} assignment script marked
    | some record => exact record.add_renamed f assignment script marked
  exact congrArg (Context.mk context.options)
    (Table.alter_map (.refl Member) (DefinitionRecord.renamed f) hadd member context.records)

theorem noteAll_renamed (annotations : Annotations) (assignments : List MemberAssignment) :
    (context.renamed f).noteAll (annotations.renamed f)
        (assignments.map (MemberAssignment.renamed f)) =
      (context.noteAll annotations assignments).renamed f := by
  induction assignments generalizing context with
  | nil => rfl
  | cons a rest ih =>
    have hfirst : (context.renamed f).note a.member (f a.assignment.id) a.scriptName
        ((annotations.renamed f).info (a.enclosing.renamed f)) =
        (context.note a.member a.assignment.id a.scriptName
          (annotations.info a.enclosing)).renamed f := by
      rw [Annotations.info_renamed, note_renamed]
    simpa [noteAll, MemberAssignment.renamed, hfirst] using ih _

theorem isDuplicated_renamed (member : Member) :
    (context.renamed f).isDuplicated member = context.isDuplicated member := by
  have hrecord : (context.renamed f).record? member =
      (context.record? member).map (DefinitionRecord.renamed f) :=
    Table.get?_map (.refl Member) (DefinitionRecord.renamed f) context.records member
  rw [isDuplicated, isDuplicated, hrecord, Option.any_map]
  simp only [DefinitionRecord.count_renamed]

theorem duplicates_renamed :
    (context.renamed f).duplicates =
      context.duplicates.map (.refl Member) (DefinitionRecord.renamed f) :=
  Table.filter_map _ _ (fun record => by rw [DefinitionRecord.count_renamed]) context.records

end Context

/-! ## Forwarding -/

/-- The call with other identities in its arguments. -/
def ForwardingCall.renamed (call : ForwardingCall) : ForwardingCall :=
  { call with args := call.args.map (Expr.renamed f) }

theorem Expr.superCall?_renamed (method : String) (e : Expr) :
    (e.renamed f).superCall? method =
      (e.superCall? method).map fun (reference, args) => (reference, args.map (renamed f)) := by
  cases e with
  | call callee args =>
    rw [renamed, renamedAll_eq_map]
    cases callee with
    | member called caller =>
      cases called with
      | member object property =>
        cases args with
        | nil => rfl
        | cons receiver args =>
          cases receiver with
          | this =>
            simp only [renamed, map_cons, superCall?, superReference?_renamed]
            split <;> simp [Function.comp_def]
          | _ => rfl
      | _ => rfl
    | _ => rfl
  | _ => rfl

theorem MethodDefinition.forwardingCall?_renamed (d : MethodDefinition) :
    (d.renamed f).forwardingCall? = d.forwardingCall?.map (ForwardingCall.renamed f) := by
  have hbody : (d.renamed f).body = d.body.map (Statement.renamed f) :=
    FunctionLiteral.body_renamed ..
  rw [forwardingCall?, forwardingCall?, hbody]
  cases d.body with
  | nil => rfl
  | cons s rest =>
    obtain ⟨id, text, form⟩ := s
    cases rest with
    | nil =>
      cases form with
      | expr e =>
        simp [Statement.renamed, Form.renamed, Expr.superCall?_renamed, renamed,
          ForwardingCall.renamed, Function.comp_def]
      | ret value =>
        cases value with
        | none => rfl
        | some e =>
          simp [Statement.renamed, Form.renamed, Expr.superCall?_renamed, renamed,
            ForwardingCall.renamed, Function.comp_def]
      | decl keyword name value => cases value <;> rfl
      | other => rfl
    | cons => obtain _ | (_ | _) | ⟨_, _, _ | _⟩ | _ := form <;> rfl

theorem Param.isPassedBy_renamed (param : Param) (e : Expr) :
    param.isPassedBy (e.renamed f) = param.isPassedBy e := by
  cases e with
  | spread value => cases value <;> rfl
  | _ => rfl

theorem ForwardingCall.forwardsExactly_renamed (call : ForwardingCall) (params : List Param) :
    (call.renamed f).forwardsExactly params = call.forwardsExactly params := by
  simp [forwardsExactly, renamed, zip_map_right, Function.comp_def, Param.isPassedBy_renamed]

theorem MethodDefinition.override?_renamed (d : MethodDefinition) (info : Doc.Info) :
    (d.renamed f).override? info = (d.override? info).map (ForwardingCall.renamed f) := by
  have hparams : (d.renamed f).params = d.params := FunctionLiteral.params_renamed ..
  rw [override?, override?, forwardingCall?_renamed, hparams]
  split
  · rw [Option.filter_map]
    simp only [Function.comp_def, ForwardingCall.forwardsExactly_renamed]
  · rfl

/-! ## The run -/

theorem MethodDefinition.returnsValue_renamed (d : MethodDefinition) (annotations : Annotations) :
    (d.renamed f).returnsValue (annotations.renamed f) = d.returnsValue annotations := by
  have hbody : (d.renamed f).body = d.body.map (Statement.renamed f) :=
    FunctionLiteral.body_renamed ..
  rw [returnsValue, returnsValue, hbody, any_map]
  congr 1
  · rw [renamed, Annotations.info_renamed, FunctionLiteral.returnsValue_renamed]
  · congr 1
    funext s
    obtain ⟨_, _, form⟩ := s
    obtain _ | (_ | _) | ⟨_, _, _ | _⟩ | _ := form <;> rfl

theorem MethodDefinition.sameSignature_renamed (d e : MethodDefinition) :
    (d.renamed f).sameSignature (e.renamed f) = d.sameSignature e := by
  simp only [sameSignature, params, renamed, FunctionLiteral.params_renamed]

theorem ForwardingCall.methodReason?_renamed (call : ForwardingCall) (d e : MethodDefinition)
    (annotations : Annotations) :
    (call.renamed f).methodReason? (d.renamed f) (e.renamed f) (annotations.renamed f) =
      call.methodReason? d e annotations := by
  rw [methodReason?, methodReason?, MethodDefinition.sameSignature_renamed,
    MethodDefinition.returnsValue_renamed]
  rfl

theorem MethodDefinition.ownReason?_renamed (d : MethodDefinition) (info : Doc.Info)
    (context : Context) :
    (d.renamed f).ownReason? info (context.renamed f) = d.ownReason? info context := by
  rw [ownReason?, ownReason?, Context.isDuplicated_renamed]
  rfl

theorem Hierarchy.keepReason?_renamed (hierarchy : Hierarchy) (annotations : Annotations)
    (context : Context) (d : MethodDefinition) (call : ForwardingCall) :
    (hierarchy.renamed f).keepReason? (annotations.renamed f) (context.renamed f) (d.renamed f)
        (call.renamed f) = hierarchy.keepReason? annotations context d call := by
  have hinfo : (annotations.renamed f).info (d.renamed f).statement =
      annotations.info d.statement := Annotations.info_renamed ..
  have hmember : (d.renamed f).member = d.member := rfl
  have hsuper : (hierarchy.renamed f).immediateSuper? d.member.owner =
      hierarchy.immediateSuper? d.member.owner := rfl
  rw [keepReason?, keepReason?, hinfo, MethodDefinition.ownReason?_renamed, hmember, hsuper]
  cases hierarchy.immediateSuper? d.member.owner with
  | none => rfl
  | some superclass =>
    dsimp only
    rw [ownMethod?_renamed]
    cases hierarchy.ownMethod? ⟨superclass, d.member.name⟩ with
    | none => rfl
    | some superMethod =>
      rw [Option.map_some]
      dsimp only
      rw [ForwardingCall.methodReason?_renamed]
      rfl

/-- The candidate with other identities in it. -/
def Candidate.renamed (candidate : Candidate) : Candidate :=
  ⟨candidate.definition.renamed f, candidate.call.renamed f⟩

theorem Program.candidates_renamed (program : Program) (hierarchy : Hierarchy)
    (annotations : Annotations) :
    (program.renamed f).candidates (hierarchy.renamed f) (annotations.renamed f) =
      (program.candidates hierarchy annotations).map (Candidate.renamed f) := by
  have hstatement : ∀ s : Statement,
      ((hierarchy.renamed f).definitionOf? (s.renamed f)).bind (fun d =>
          (d.override? ((annotations.renamed f).info (s.renamed f))).map fun call => ⟨d, call⟩) =
        ((hierarchy.definitionOf? s).bind fun d =>
          (d.override? (annotations.info s)).map fun call => ⟨d, call⟩).map
            (Candidate.renamed f) := by
    intro s
    rw [Hierarchy.definitionOf?_renamed, Annotations.info_renamed]
    cases hierarchy.definitionOf? s with
    | none => rfl
    | some d =>
      simp [MethodDefinition.override?_renamed, Function.comp_def, Candidate.renamed]
  simp [candidates, renamed, Script.renamed, flatMap_map, map_flatMap, filterMap_map,
    map_filterMap, hstatement]

theorem Script.delete?_renamed (script : Script) (s : Statement) :
    (script.renamed f).delete? (s.renamed f) = (script.delete? s).map (Script.renamed f) := by
  simp only [delete?, renamed, any_map, Function.comp_def, Statement.id_renamed,
    f.injective.eq_iff, eraseP_map]
  split <;> rfl

theorem Program.delete?_renamed (program : Program) (d : MethodDefinition) :
    (program.renamed f).delete? (d.renamed f) = (program.delete? d).map (Program.renamed f) := by
  have hdelete : ∀ script : Script, (script.renamed f).delete? (d.renamed f).statement =
      (script.delete? d.statement).map (Script.renamed f) :=
    fun script => script.delete?_renamed f d.statement
  have hscript : ∀ script : Script, (script.renamed f).id = (d.renamed f).script ↔
      script.id = d.script := fun _ => .rfl
  have hsmaller : ∀ script : Script,
      (if script.id = d.script then ((script.delete? d.statement).map (Script.renamed f)).getD
          (script.renamed f) else script.renamed f) =
        (if script.id = d.script then (script.delete? d.statement).getD script
          else script).renamed f := by
    intro script
    split
    · cases script.delete? d.statement <;> rfl
    · rfl
  simp only [delete?, renamed, any_map, map_map, Function.comp_def, hscript, hdelete,
    Option.isSome_map, hsmaller]
  split
  · simp [renamed, Function.comp_def]
  · rfl

theorem Program.deleteAll_renamed (program : Program) (ds : List MethodDefinition) :
    (program.renamed f).deleteAll (ds.map (MethodDefinition.renamed f)) =
      ((program.deleteAll ds).1.renamed f, (program.deleteAll ds).2) := by
  induction ds generalizing program with
  | nil => rfl
  | cons d ds ih =>
    rw [map_cons, deleteAll, deleteAll, delete?_renamed]
    cases program.delete? d with
    | none => exact ih program
    | some smaller =>
      simp only [Option.map_some, ih smaller]
      rfl

/-- The report with other identities in it. -/
def Report.renamed (report : Report) : Report :=
  { report with
    removed := report.removed.map (MethodDefinition.renamed f)
    duplicates := report.duplicates.map (.refl Member) (DefinitionRecord.renamed f) }

/-- The outcome with other identities in it. -/
def Outcome.renamed (outcome : Outcome) : Outcome where
  program := outcome.program.renamed f
  context := outcome.context.renamed f
  report := outcome.report.renamed f
  log := outcome.log

/-- A run does the same under other identities. -/
theorem Context.process_renamed (context : Context) (program : Program)
    (annotations : Annotations) :
    (context.renamed f).process (program.renamed f) (annotations.renamed f) =
      (context.process program annotations).renamed f := by
  have hcontext : (context.renamed f).noteAll (annotations.renamed f)
      ((program.hierarchy annotations).renamed f).assignments =
        (context.noteAll annotations (program.hierarchy annotations).assignments).renamed f :=
    context.noteAll_renamed f annotations _
  have hremoved : ∀ candidates : List Candidate,
      candidates.map (fun candidate => candidate.definition.renamed f) =
        (candidates.map Candidate.definition).map (MethodDefinition.renamed f) := by
    intro candidates
    rw [map_map]
    rfl
  simp only [process, Program.hierarchy_renamed, hcontext, Program.candidates_renamed,
    Hierarchy.keepReason?_renamed, filter_map, filterMap_map, map_map, Function.comp_def,
    Candidate.renamed]
  have hcount : (program.renamed f).scripts.length = program.scripts.length := length_map ..
  simp only [hremoved, Program.deleteAll_renamed, duplicates_renamed, length_map, hcount]
  rfl

/-! ## What a run shows -/

namespace Report

variable (report : Report)

theorem sortedDuplicates_renamed :
    (report.renamed f).sortedDuplicates =
      report.sortedDuplicates.map (Prod.map id (DefinitionRecord.renamed f)) := by
  have hsorted := map_mergeSort (f := Prod.map id (DefinitionRecord.renamed f))
    (r := fun a b => a.1.le b.1) (s := fun a b => a.1.le b.1) (l := report.duplicates.entries)
    (fun _ _ _ _ => rfl)
  exact hsorted.symm

theorem toJson_renamed : (report.renamed f).toJson = report.toJson := by
  have hclasses : (report.renamed f).sortedClasses = report.sortedClasses := rfl
  have hremoved : (report.renamed f).removed.map removedJson = report.removed.map removedJson := by
    rw [renamed, map_map]
    refine map_congr_left fun d _ => ?_
    simp only [Function.comp_apply, removedJson, MethodDefinition.params, MethodDefinition.renamed,
      FunctionLiteral.params_renamed]
  have hduplicate : ∀ member record,
      duplicateJson member (record.renamed f) = duplicateJson member record := by
    intro member record
    rw [duplicateJson, DefinitionRecord.count_renamed]
    rfl
  rw [toJson, toJson, hclasses, hremoved, sortedDuplicates_renamed]
  simp only [map_map, Function.comp_def, Prod.map, id, hduplicate]
  rfl

theorem summary_renamed : (report.renamed f).summary = report.summary := by
  have hclasses : (report.renamed f).sortedClasses = report.sortedClasses := rfl
  have hlength : (report.renamed f).removed.length = report.removed.length := length_map ..
  have hcandidates : (report.renamed f).candidates = report.candidates := rfl
  have hremoved : (report.renamed f).removed.map removedLine = report.removed.map removedLine := by
    rw [renamed, map_map]
    refine map_congr_left fun d _ => ?_
    simp only [Function.comp_apply, removedLine, MethodDefinition.params, MethodDefinition.renamed,
      FunctionLiteral.params_renamed]
  have hduplicate : ∀ member record,
      duplicateLine member (record.renamed f) = duplicateLine member record := by
    intro member record
    rw [duplicateLine, DefinitionRecord.count_renamed]
    rfl
  rw [summary, summary, summaryLines, summaryLines, hclasses, hlength, hcandidates, hremoved,
    sortedDuplicates_renamed]
  cases report.sortedDuplicates with
  | nil => rfl
  | cons first rest =>
    simp only [map_cons, map_map, Function.comp_def, Prod.map, id, hduplicate, length_cons,
      length_map]

end Report

/-- Two runs leave the same of every script, and tell the same. -/
structure Outcome.ShowsAs (outcome other : Outcome) : Prop where
  names : outcome.program.scripts.map Script.name = other.program.scripts.map Script.name
  sources : outcome.program.scripts.map Script.source = other.program.scripts.map Script.source
  summary : outcome.report.summary = other.report.summary
  report : outcome.report.toJson = other.report.toJson
  log : outcome.log = other.log

theorem Outcome.renamed_showsAs (outcome : Outcome) : (outcome.renamed f).ShowsAs outcome where
  names := map_map ..
  sources := by
    rw [renamed, Program.renamed, map_map]
    exact map_congr_left fun script _ => script.source_renamed f
  summary := outcome.report.summary_renamed f
  report := outcome.report.toJson_renamed f
  log := rfl

end

end OverrideElision
