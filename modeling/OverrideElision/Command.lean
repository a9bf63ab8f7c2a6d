import OverrideElision.Elision
import OverrideElision.Files.Load
import OverrideElision.JavaScript.Source
import OverrideElision.Report.Document
import OverrideElision.Report.Summary
import OverrideElision.Text.UpperCase

/-! # The command

A run over the scripts at some paths prints what is left of each script, the summary, and the report
as JSON. Without paths it shows the same for a sample. -/

namespace OverrideElision.Command

/-- The sample that is read when no path is given. -/
def sample : String := "
/** @constructor */
var Shape = function() \x7b\x7d;
/** @param \x7bnumber\x7d scale */
Shape.prototype.resize = function(scale) \x7b\x7d;
/** @return \x7bstring\x7d */
Shape.prototype.describe = function() \x7b return 'shape'; \x7d;

/** @constructor @extends \x7bShape\x7d */
var Circle = function() \x7b\x7d;
Circle.superClass_ = Shape.prototype;

/** @override */
Circle.prototype.resize = function(scale) \x7b
  Circle.superClass_.resize.call(this, scale);
\x7d;

/** @override */
Circle.prototype.describe = function() \x7b
  return 'circle: ' + Circle.superClass_.describe.call(this);
\x7d;
"

/-- Why a run prints no report. -/
inductive Failure where
  | unknownLevel (name : String)
  | unreadable (reason : Files.ReadError)
  | invalidScript (name : String) (offset : Nat)
deriving DecidableEq, Repr

/-- The failure in words. -/
def Failure.message : Failure → String
  | .unknownLevel name => "Unknown level: " ++ Text.quoted name
  | .unreadable reason => reason.message ""
  | .invalidScript name offset => name ++ ": cannot be read on from byte " ++ toString offset

/-- What a run shows: its output, its warnings, the log, and why it stopped early if it did. -/
structure Result where
  output : String := ""
  warnings : List String := []
  log : List Event := []
  failure : Option Failure := none

/-- The level from which on the log is shown. Without a name, or with the empty one, it is the level
of warnings; names are taken in any case. -/
def threshold (name : Option String) : Except Failure Level :=
  match name with
  | none | some "" => .ok .warning
  | some name =>
    let name := Text.upper name
    match Level.ofName? name with
    | some level => .ok level
    | none => .error (.unknownLevel name)

/-- The events that are at least as important as a level. -/
def shown (threshold : Level) (log : List Event) : List Event :=
  log.filter fun event => threshold.rank ≤ event.level.rank

/-- The syntax tree of each source. -/
def parseAll (sources : List (String × String)) : Except Failure (List Syntax.SourceTree) :=
  sources.mapM fun (name, text) =>
    (JavaScript.sourceTree name text).mapError fun e => .invalidScript name e.offset

/-- What is left of the scripts, each under its name, with the summary and the report. -/
def page (program : Program) (report : Report) : String :=
  String.join (program.scripts.map fun script =>
      "\n=== " ++ script.name ++ " ===\n" ++ script.source ++ "\n") ++
    report.summary ++ "\n=== JSON ===\n" ++ report.toJson.document ++ "\n"

/-- The sources of a run. -/
def sources (paths : List (Files.Located Files.Entry)) : Files.Loaded :=
  if paths.isEmpty then { sources := [("<sample>", sample)] } else Files.load (Files.collect paths)

/-- A run over what stands at some paths, with the log from the level called `level` on. -/
def run (level : Option String) (paths : List (Files.Located Files.Entry)) : Result :=
  match threshold level with
  | .error failure => { failure := some failure }
  | .ok threshold =>
    let loaded := sources paths
    let stopped (failure : Failure) : Result :=
      { warnings := loaded.warnings, failure := some failure }
    match loaded.failure with
    | some reason => stopped (.unreadable reason)
    | none =>
      match parseAll loaded.sources with
      | .error failure => stopped failure
      | .ok trees =>
        let program := Program.ofSources 0 trees
        let outcome := ({} : Context).process program program.annotations
        { output := page outcome.program outcome.report
          warnings := loaded.warnings
          log := shown threshold outcome.log }

end OverrideElision.Command
