import OverrideElision.Elision
import OverrideElision.Syntax.Reading

/-! # Code with its syntax tree

Code put together from its tokens, grouped by the nodes that they belong to. The text of a source
and its tree both come out of it, so that the spans of the nodes fit the text. -/

namespace OverrideElision

namespace Syntax

/-- A part of a source: a leaf with its text, or a node around other parts. -/
inductive Draft where
  | leaf (field : Option Field) (kind : Kind) (named : Bool) (text : String)
  | node (field : Option Field) (kind : Kind) (parts : List Draft)

namespace Draft

mutual

/-- The text of a part. -/
def text : Draft → String
  | .leaf _ _ _ text => text
  | .node _ _ parts => textAll parts

/-- The text of several parts. -/
def textAll : List Draft → String
  | [] => ""
  | part :: parts => part.text ++ textAll parts

end

mutual

/-- The number of bytes of a part. -/
def width : Draft → Nat
  | .leaf _ _ _ text => text.utf8ByteSize
  | .node _ _ parts => widthAll parts

/-- The number of bytes of several parts. -/
def widthAll : List Draft → Nat
  | [] => 0
  | part :: parts => part.width + widthAll parts

end

mutual

/-- The syntax tree of a part that starts at the byte `start`. -/
def tree (start : Nat) : Draft → Node
  | .leaf field kind named text => ⟨kind, named, field, start, start + text.utf8ByteSize, 0, []⟩
  | .node field kind parts =>
    ⟨kind, true, field, start, start + widthAll parts, 0, treeAll start parts⟩

/-- The syntax trees of several parts, the first of which starts at the byte `start`. -/
def treeAll (start : Nat) : List Draft → List Node
  | [] => []
  | part :: parts => part.tree start :: treeAll (start + part.width) parts

end

/-- The source that consists of these statements and comments. -/
def source (name : String) (statements : List Draft) : SourceTree :=
  ⟨name, textAll statements, tree 0 (.node none (.other "program") statements)⟩

/-- The part in a field of the node around it. -/
def inField (field : Field) : Draft → Draft
  | .leaf _ kind named text => .leaf field kind named text
  | .node _ kind parts => .node field kind parts

/-! ## Constructs -/

def token (text : String) : Draft := .leaf none (.other text) false text

def comment (text : String) : Draft := .leaf none .comment true text

def identifier (name : String) : Draft := .leaf none .identifier true name

def this : Draft := .leaf none .this true "this"

def number (text : String) : Draft := .leaf none (.other "number") true text

def member (object : Draft) (name : String) : Draft :=
  .node none .memberExpression
    [object.inField .object, token ".", .leaf (some .property) .propertyIdentifier true name]

/-- The class member `owner.prototype.name`. -/
def classMember (owner name : String) : Draft := member (member (identifier owner) "prototype") name

def assignment (left right : Draft) : Draft :=
  .node none .assignmentExpression [left.inField .left, token "=", right.inField .right]

/-- Items in brackets. -/
def list (kind : Kind) (items : List Draft) : Draft :=
  .node none kind ([token "("] ++ items.intersperse (token ",") ++ [token ")"])

def call (callee : Draft) (args : List Draft) : Draft :=
  .node none .callExpression [callee.inField .function, (list .arguments args).inField .arguments]

def function (params body : List Draft) : Draft :=
  .node none .functionExpression
    [.leaf none .functionWord false "function", (list .formalParameters params).inField .parameters,
      .node (some .body) .statementBlock ([token "\x7b"] ++ body ++ [token "\x7d"])]

/-- A parameter with a default value. -/
def defaulted (name : String) (value : Draft) : Draft :=
  .node none .assignmentPattern
    [(identifier name).inField .left, token "=", value.inField .right]

def parenthesized (inner : Draft) : Draft :=
  .node none .parenthesizedExpression [token "(", inner, token ")"]

def statement (expression : Draft) : Draft :=
  .node none .expressionStatement [expression, token ";"]

def declaration (name : String) : Draft :=
  .node none .variableDeclaration
    [token "var ", .node none .variableDeclarator [(identifier name).inField .name], token ";"]

end Draft

end Syntax

/-! ## An override -/

namespace Override

open Syntax Syntax.Draft

/-- Code in which the class `B` extends `A` and overrides its method `m` by a call of that method,
with these parameters and arguments. -/
def sources (inherited own args : List Draft) : List SourceTree :=
  [source "a.js"
    [comment "/** @extends {A} */", declaration "B",
      statement (assignment (member (identifier "B") "superClass_")
        (member (identifier "A") "prototype")),
      statement (assignment (classMember "A" "m") (function inherited []))],
   source "b.js"
    [comment "/** @override */",
      statement (assignment (classMember "B" "m")
        (function own [statement (call (member (classMember "A" "m") "call") (this :: args))]))]]

/-- What a run over the sources removes. -/
def removed (sources : List SourceTree) : List MethodDefinition :=
  (({} : Context).process (Program.ofSources 0 sources)
    (Program.ofSources 0 sources).annotations).report.removed

end Override

end OverrideElision
