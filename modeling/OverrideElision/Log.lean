import OverrideElision.Soundness

/-! # The log

What a run reports as it goes, at which level, and in which words. -/

namespace OverrideElision

/-- How important a message is. -/
inductive Level where
  | debug
  | info
  | warning
  | error
  | critical
deriving DecidableEq, Repr

namespace Level

/-- The rank of a level; a higher one is more important. -/
def rank : Level → Nat
  | .debug => 10
  | .info => 20
  | .warning => 30
  | .error => 40
  | .critical => 50

/-- The level as messages show it. -/
def label : Level → String
  | .debug => "DEBUG"
  | .info => "INFO"
  | .warning => "WARNING"
  | .error => "ERROR"
  | .critical => "CRITICAL"

/-- The level that a name sets. Two levels have a second name, and `NOTSET` is the default, the
level of warnings. -/
def ofName? (name : String) : Option Level :=
  [("CRITICAL", Level.critical), ("FATAL", .critical), ("ERROR", .error), ("WARN", .warning),
    ("WARNING", .warning), ("INFO", .info), ("DEBUG", .debug), ("NOTSET", .warning)].lookup name

end Level

/-- What a run reports. -/
inductive Event where
  | started (scripts : Nat)
  | conflict (conflict : Conflict)
  | kept (member : Member) (reason : KeepReason)
  | removed (member : Member) (script : String)
  | finished (removals candidates : Nat)
deriving DecidableEq

namespace Event

/-- Reasons and contradictions are details; the rest is what a user wants to follow. -/
def level : Event → Level
  | .conflict _ | .kept _ _ => .debug
  | .started _ | .removed _ _ | .finished _ _ => .info

/-- A time in seconds with three decimals. -/
def seconds (milliseconds : Nat) : String :=
  let fraction := toString (milliseconds % 1000)
  toString (milliseconds / 1000) ++ "." ++
    String.ofList (List.replicate (3 - fraction.length) '0') ++ fraction

/-- The event in words; `milliseconds` is how long the run took. -/
def message (milliseconds : Nat) (event : Event) : String :=
  "[RemoveSuperMethods] " ++ match event with
    | .started scripts => "Starting pass over " ++ toString scripts ++ " compilation unit(s)"
    | .conflict (.superType name) => "Conflicting @extends for " ++ name
    | .conflict (.superClass name) => "Conflicting superClass_ for " ++ name
    | .kept member reason => "Keeping " ++ member.source ++ ": " ++ reason.message
    | .removed member script => "Removed " ++ member.source ++ " (" ++ script ++ ")"
    | .finished removals candidates =>
      "Finished in " ++ seconds milliseconds ++ "s. Removed " ++ toString removals ++ " of " ++
        toString candidates ++ " forwarding override(s)"

/-- The event with its level in front. -/
def line (milliseconds : Nat) (event : Event) : String :=
  event.level.label ++ " " ++ event.message milliseconds

end Event

end OverrideElision
