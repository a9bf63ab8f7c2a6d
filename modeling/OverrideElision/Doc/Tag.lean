import OverrideElision.Doc.Braces
import OverrideElision.Doc.Info
import OverrideElision.Text.Split
import OverrideElision.Text.Word

/-! # Tags

A tag is an `@` with a name right after it, wherever it stands in the comment, inside a brace group
too. What belongs to the tag is read from the text after its name; the search for further tags goes
on right after the name as well. -/

namespace OverrideElision.Doc

/-- A tag's name and the text that follows it. -/
structure Tag where
  name : List Char
  after : List Char
deriving DecidableEq

/-- The tags of a text in their order. -/
def tags : List Char → List Tag
  | [] => []
  | c :: rest =>
    if c = '@' ∧ (rest.head?.any Text.isTagStart) then
      let after := rest.dropWhile Text.isWord
      ⟨rest.takeWhile Text.isWord, after⟩ :: tags after
    else tags rest
termination_by text => text.length
decreasing_by
  · have h := (List.dropWhile_suffix (l := rest) Text.isWord).length_le
    simp only [List.length_cons]
    omega
  · simp

/-- Characters of a parameter's name. -/
def isParamChar (c : Char) : Bool :=
  Text.isWord c || c == '$'

/-- The parameter's name at the start of a text, white space and an opening bracket apart. -/
def paramName? (text : List Char) : Option (List Char) :=
  let text := Text.trimLeft text
  let text := if text.head? = some '[' then text.tail else text
  match text.takeWhile isParamChar with
  | [] => none
  | name => some name

namespace Tag

/-- The tag has this name. -/
def is (tag : Tag) (name : String) : Bool :=
  tag.name == name.toList

/-- The type in braces after the tag, and the text after it; without such a type the empty one and
all the text. -/
def type (tag : Tag) : List Char × List Char :=
  (braced? tag.after).getD ([], tag.after)

/-- The superclass that an `@extends` or `@inherits` names: its type, if it has one, without the
leading exclamation marks. -/
def superType? (tag : Tag) : Option String :=
  if (tag.is "extends" || tag.is "inherits") && !tag.type.1.isEmpty then
    some (String.ofList (tag.type.1.dropWhile (· == '!')))
  else none

/-- The names that a `@suppress` lists, separated by commas or bars. -/
def suppressions (tag : Tag) : List String :=
  if tag.is "suppress" then
    (((Text.splitAt (fun c => c == ',' || c == '|') tag.type.1).map Text.trim).filter
      (!·.isEmpty)).map String.ofList
  else []

/-- The parameter that a `@param` documents. -/
def param? (tag : Tag) : Option Param :=
  if tag.is "param" then
    (paramName? tag.type.2).map fun name => ⟨String.ofList name, String.ofList tag.type.1⟩
  else none

/-- The tag documents a returned value. -/
def isReturn (tag : Tag) : Bool :=
  tag.is "return" || tag.is "returns"

end Tag

/-- What a sequence of tags says: flags and sets gather over all tags, parameters keep their order,
and of several superclass types the last one counts. -/
def Info.ofTags (tags : List Tag) : Info where
  isOverride := tags.any (·.is "override")
  isConstructor := tags.any (·.is "constructor")
  superType := (tags.filterMap Tag.superType?).getLast?
  suppressions := .ofList (tags.flatMap Tag.suppressions)
  markers := .ofList (tags.map fun tag => String.ofList tag.name)
  params := tags.filterMap Tag.param?
  hasReturn := tags.any Tag.isReturn

end OverrideElision.Doc
