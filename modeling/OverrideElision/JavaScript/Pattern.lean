import OverrideElision.JavaScript.Reader

/-! # Patterns

What is assigned to or bound may be written like an object or array literal. Such a target is read
as an expression first and turned into a pattern once it is known to be one; what looked like
assignments inside are default values then. -/

namespace OverrideElision.JavaScript

open Syntax (Node Kind Field)

/-- The kind of an object literal. -/
def objectKind : Kind := .other "object"

/-- The kind of an array literal. -/
def arrayKind : Kind := .other "array"

/-- The kind of a property with its value in an object literal. -/
def pairKind : Kind := .other "pair"

/-- The kind of the pattern that an expression of this kind is. -/
def patternKind (kind : Kind) : Kind :=
  if kind = objectKind then .other "object_pattern"
  else if kind = arrayKind then .other "array_pattern"
  else if kind = pairKind then .other "pair_pattern"
  else match kind with
    | .spreadElement => .restPattern
    | .assignmentExpression => .assignmentPattern
    | kind => kind

/-- Which children of an expression are patterns once it is one: the members and items of literals,
the value of a property, and what is spread. The target of an assignment is a pattern already. -/
def bindsChild (kind : Kind) (child : Node) : Bool :=
  kind = objectKind || kind = arrayKind || kind = .spreadElement ||
    (kind = pairKind && child.field = some .value)

mutual

/-- The expression as a pattern. -/
def asPattern : Node → Node
  | ⟨kind, named, field, start, stop, id, children⟩ =>
    ⟨patternKind kind, named, field, start, stop, id, asPatterns kind children⟩

/-- The children of an expression of this kind, as patterns where they bind. -/
def asPatterns (kind : Kind) : List Node → List Node
  | [] => []
  | n :: ns => (if bindsChild kind n then asPattern n else n) :: asPatterns kind ns

end

end OverrideElision.JavaScript
