import OverrideElision.NameSet

/-! # Documentation records

What a statement's documentation comments say about it, as far as the analysis reads them. -/

namespace OverrideElision.Doc

/-- One documented parameter and its type, empty when none is written. -/
structure Param where
  name : String
  type : String := ""
deriving DecidableEq, Repr

namespace Param

/-- A type that ends in `=` makes the parameter optional. -/
def isOptional (param : Param) : Bool := param.type.toList.getLast? == some '='

/-- A type that starts with `...` makes the parameter take all remaining arguments. -/
def isRest (param : Param) : Bool := ['.', '.', '.'].isPrefixOf param.type.toList

end Param

/-- The documentation of one statement. `markers` holds the name of every tag, whether it has a
meaning here or not; the remaining fields are what the tags with a meaning say. -/
structure Info where
  isOverride : Bool := false
  isConstructor : Bool := false
  superType : Option String := none
  suppressions : NameSet := ∅
  markers : NameSet := ∅
  params : List Param := []
  hasReturn : Bool := false
deriving DecidableEq

instance : Inhabited Info := ⟨{}⟩

namespace Info

/-- The first entry for a parameter of this name. -/
def param? (info : Info) (name : String) : Option Param :=
  info.params.find? (·.name == name)

/-- A superclass type that is present and not empty. -/
def namedSuperType (info : Info) : Option String :=
  info.superType.filter (· ≠ "")

/-- The documentation declares its statement to be a class: it marks a constructor or names a
superclass. -/
def declaresClass (info : Info) : Bool :=
  info.isConstructor || info.namedSuperType.isSome

end Info

end OverrideElision.Doc
