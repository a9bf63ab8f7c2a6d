import OverrideElision.Tree.Basic

/-! # References by name

Classes are known by their dotted names. A class method is reached as `Owner.prototype.name`, and a
superclass as `Owner.superClass_` or directly as `Base.prototype`. -/

namespace OverrideElision

/-- The names of a chain of property reads that starts at a name, in reading order. -/
def Expr.path? : Expr → Option (List String)
  | .name text => some [text]
  | .member object property => object.path?.map (· ++ [property])
  | _ => none

/-- The dotted name `a.b.C` that a chain of property reads spells. -/
def Expr.qualifiedName? (e : Expr) : Option String :=
  e.path?.map ".".intercalate

/-- A member `Owner.prototype.name` of a class. -/
structure Member where
  owner : String
  name : String
deriving DecidableEq, Repr

namespace Member

/-- The member as it is written. -/
def source (member : Member) : String :=
  member.owner ++ ".prototype." ++ member.name

/-- Members are ordered by owner, then by name, code point by code point. -/
def le (a b : Member) : Bool :=
  decide (a.owner < b.owner) || (a.owner == b.owner && decide (a.name ≤ b.name))

end Member

/-- The class member that an expression refers to. -/
def Expr.member? : Expr → Option Member
  | .member (.member owner property) method =>
    if property = "prototype" then owner.qualifiedName?.map fun owner => ⟨owner, method⟩ else none
  | _ => none

/-- A reference to a superclass: by way of the receiver's link, or by the receiver's own
prototype. -/
structure SuperReference where
  receiver : String
  viaSuperClass : Bool
deriving DecidableEq, Repr

/-- The superclass reference that an expression is. Which class it names is not decided here. -/
def Expr.superReference? : Expr → Option SuperReference
  | .member object property =>
    if property = "superClass_" ∨ property = "prototype" then
      object.qualifiedName?.map fun receiver => ⟨receiver, property = "superClass_"⟩
    else none
  | _ => none

/-- The dotted name of the object that an expression reads this property of. -/
def Expr.ownerOf? (property : String) : Expr → Option String
  | .member object read => if read = property then object.qualifiedName? else none
  | _ => none

/-- The class named by an expression `Base.prototype`. -/
def Expr.prototypeOf? (e : Expr) : Option String := e.ownerOf? "prototype"

/-- The class whose superclass link an expression `Sub.superClass_` is. -/
def Expr.linkOf? (e : Expr) : Option String := e.ownerOf? "superClass_"

end OverrideElision
