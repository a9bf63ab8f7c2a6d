import OverrideElision.Context
import OverrideElision.Forwarding
import OverrideElision.Hierarchy

/-! # When an override can go

A forwarding override can be deleted when the method it forwards to is the one that a call finds
anyway once it is gone, and takes and gives the same. Whatever cannot be shown keeps the override,
for a stated reason. -/

namespace OverrideElision

/-- The method gives its callers a value, by its documentation or by its code. -/
def MethodDefinition.returnsValue (definition : MethodDefinition) (annotations : Annotations) :
    Bool :=
  (annotations.info definition.statement).hasReturn || definition.function.returnsValue ||
    definition.body.any fun s => match s.form with
      | .ret (some _) => true
      | _ => false

/-- The override's parameter accepts what the superclass method's parameter does. A parameter about
which nothing is said takes over optionality, but never a variable argument list. -/
def Param.acceptsAs (own inherited : Param) : Bool :=
  own.kind == inherited.kind ||
    (!own.declared && own.kind == .required && inherited.kind == .optional)

/-- The parameters of the override have the number and the kinds of those of the superclass
method. -/
def MethodDefinition.sameSignature (override superMethod : MethodDefinition) : Bool :=
  override.params.length == superMethod.params.length &&
    (override.params.zip superMethod.params).all fun (own, inherited) => own.acceptsAs inherited

/-- Why an override is kept. -/
inductive KeepReason where
  /-- Its documentation has tags that keep it out of the analysis. -/
  | marked (markers : NameSet)
  /-- Its documentation suppresses warnings, which its deletion would bring back elsewhere. -/
  | suppressed (names : NameSet)
  | duplicated
  | noSuperclass
  /-- It goes by way of another class's superclass link. -/
  | foreignLink (receiver : String)
  | otherTarget (target superclass : String)
  | noOwnMethod (superclass : String)
  | parametersDiffer
  | dropsReturnValue
deriving DecidableEq

/-- The reason in words. -/
def KeepReason.message : KeepReason → String
  | .marked markers => "marked @" ++ ", @".intercalate markers.toList
  | .suppressed names => "@suppress \x7b" ++ ",".intercalate names.toList ++ "\x7d"
  | .duplicated => "defined more than once"
  | .noSuperclass => "no confirmed immediate superclass"
  | .foreignLink receiver => "superClass_ of " ++ receiver
  | .otherTarget target superclass =>
    "calls " ++ target ++ ", immediate superclass is " ++ superclass
  | .noOwnMethod superclass => superclass ++ " has no single own definition"
  | .parametersDiffer => "parameters differ from the superclass method"
  | .dropsReturnValue => "drops the superclass method's return value"

/-- The first reason that the override's own documentation and the records give to keep it. -/
def MethodDefinition.ownReason? (definition : MethodDefinition) (info : Doc.Info)
    (context : Context) : Option KeepReason :=
  let markers := info.markers.inter context.options.keepMarkers
  if !markers.isEmpty then some (.marked markers)
  else if !info.suppressions.isEmpty then some (.suppressed info.suppressions)
  else if context.isDuplicated definition.member then some .duplicated
  else none

/-- The reason to keep an override whose call does not lead to the confirmed superclass. -/
def ForwardingCall.targetReason? (call : ForwardingCall) (owner superclass : String) :
    Option KeepReason :=
  let receiver := call.reference.receiver
  if call.reference.viaSuperClass then
    if receiver ≠ owner then some (.foreignLink receiver) else none
  else if receiver ≠ superclass then some (.otherTarget receiver superclass)
  else none

/-- The first reason to keep an override instead of letting calls find `superMethod`. -/
def ForwardingCall.methodReason? (call : ForwardingCall) (definition superMethod : MethodDefinition)
    (annotations : Annotations) : Option KeepReason :=
  if !definition.sameSignature superMethod then some .parametersDiffer
  else if !call.returned && superMethod.returnsValue annotations then some .dropsReturnValue
  else none

/-- The first reason to keep a forwarding override, if there is one. -/
def Hierarchy.keepReason? (hierarchy : Hierarchy) (annotations : Annotations) (context : Context)
    (definition : MethodDefinition) (call : ForwardingCall) : Option KeepReason :=
  (definition.ownReason? (annotations.info definition.statement) context).or <|
    match hierarchy.immediateSuper? definition.member.owner with
    | none => some .noSuperclass
    | some superclass =>
      (call.targetReason? definition.member.owner superclass).or <|
        match hierarchy.ownMethod? ⟨superclass, definition.member.name⟩ with
        | none => some (.noOwnMethod superclass)
        | some superMethod => call.methodReason? definition superMethod annotations

end OverrideElision
