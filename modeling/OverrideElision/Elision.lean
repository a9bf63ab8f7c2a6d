import OverrideElision.Log

/-! # Deleting forwarding overrides

A run notes all assignments to class members in the context, decides about every candidate on the
program as it is, and only then deletes. -/

namespace OverrideElision

/-- What a run saw and did. -/
structure Report where
  classes : Table String ClassDeclaration := ∅
  candidates : Nat := 0
  removed : List MethodDefinition := []
  duplicates : Table Member DefinitionRecord := ∅

/-- The program after a run, the context for the next one, and what there is to tell. -/
structure Outcome where
  program : Program
  context : Context
  report : Report
  log : List Event

/-- A method documented as an override that only forwards, and its call. -/
structure Candidate where
  definition : MethodDefinition
  call : ForwardingCall

/-- The candidates of a program, in the order of their statements. -/
def Program.candidates (program : Program) (hierarchy : Hierarchy) (annotations : Annotations) :
    List Candidate :=
  program.scripts.flatMap fun script => script.statements.filterMap fun s =>
    (hierarchy.definitionOf? s).bind fun definition =>
      (definition.override? (annotations.info s)).map fun call => ⟨definition, call⟩

/-- The script without the first occurrence of a statement, if the statement occurs in it. -/
def Script.delete? (script : Script) (s : Statement) : Option Script :=
  if script.statements.any (·.id = s.id) then
    some { script with statements := script.statements.eraseP (·.id = s.id) }
  else none

/-- The program without the statement of a definition, if its script still has it. Nothing else is
touched. -/
def Program.delete? (program : Program) (definition : MethodDefinition) : Option Program :=
  if program.scripts.any fun script =>
      script.id = definition.script ∧ (script.delete? definition.statement).isSome then
    some { program with
      scripts := program.scripts.map fun script =>
        if script.id = definition.script then
          (script.delete? definition.statement).getD script
        else script }
  else none

/-- Deletes definitions one after the other and reports each that was still there. -/
def Program.deleteAll (program : Program) : List MethodDefinition → Program × List Event
  | [] => (program, [])
  | definition :: rest =>
    match program.delete? definition with
    | none => program.deleteAll rest
    | some smaller =>
      let (last, log) := smaller.deleteAll rest
      (last, .removed definition.member definition.scriptName :: log)

/-- One run over a program, under the given documentation. -/
def Context.process (context : Context) (program : Program) (annotations : Annotations) : Outcome :=
  let hierarchy := program.hierarchy annotations
  let context := context.noteAll annotations hierarchy.assignments
  let candidates := program.candidates hierarchy annotations
  let reason? (candidate : Candidate) :=
    hierarchy.keepReason? annotations context candidate.definition candidate.call
  let removed := (candidates.filter fun candidate => (reason? candidate).isNone).map
    Candidate.definition
  let (smaller, removals) := program.deleteAll removed
  { program := smaller
    context
    report :=
      { classes := hierarchy.table.classes
        candidates := candidates.length
        removed
        duplicates := context.duplicates }
    log :=
      .started program.scripts.length :: hierarchy.table.conflicts.map .conflict ++
        candidates.filterMap (fun candidate =>
          (reason? candidate).map (.kept candidate.definition.member ·)) ++
        removals ++ [.finished removed.length candidates.length] }

/-- What can be run over: a program, or a single script, which has no documentation of its own. -/
inductive Code where
  | program (program : Program)
  | script (script : Script)

/-- The program that a run is over and the documentation it goes by: what is given, or else what the
program brings along. -/
def Code.documented (code : Code) (annotations : Option Annotations) : Program × Annotations :=
  match code with
  | .program whole => (whole, annotations.getD whole.annotations)
  | .script single => (⟨[single], annotations.getD ∅⟩, annotations.getD ∅)

/-- One run over a program or a script, under the documentation given with it, if any. -/
def Context.optimize (context : Context) (code : Code) (annotations : Option Annotations) :
    Outcome :=
  let (program, annotations) := code.documented annotations
  context.process program annotations

end OverrideElision
