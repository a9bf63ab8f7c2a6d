import OverrideElision.Doc.Tag
import OverrideElision.Text.Lines

/-! # Documentation comments

A documentation comment opens with `/**`. Its lines may start with a gutter, a star with white space
around it, which is not part of the text. Several comments in front of one statement document it
together. -/

namespace OverrideElision.Doc

/-- The comment opens with `/**` and is not the empty comment `/**/`. -/
def isDocComment (comment : String) : Bool :=
  ['/', '*', '*'].isPrefixOf comment.toList && !(['/', '*', '*', '/'].isPrefixOf comment.toList)

/-- The line without its gutter: white space, one star, and at most one white space after it. -/
def dropGutter (line : List Char) : List Char :=
  match Text.trimLeft line with
  | '*' :: rest => if rest.head?.any Text.isBlank then rest.tail else rest
  | _ => line

/-- The text between the comment's delimiters. A missing delimiter is not an error, and the closing
one is looked for only after the opening one. -/
def body (comment : List Char) : List Char :=
  let opened := if ['/', '*', '*'].isPrefixOf comment then comment.drop 3 else comment
  if ['*', '/'].isSuffixOf opened then opened.take (opened.length - 2) else opened

/-- The comment's text: its body without the gutters, one line feed between two lines. -/
def content (comment : String) : List Char :=
  Text.joinLines ((Text.splitLines (body comment.toList)).map dropGutter)

/-- What one comment says. -/
def Info.ofComment (comment : String) : Info :=
  .ofTags (tags (content comment))

/-- The tags of a comment that describes its file and not the statement after it. -/
def fileTags : NameSet := .ofList ["fileoverview", "license", "preserve"]

/-- A documentation comment that describes its file. -/
def isFileLevel (comment : String) : Bool :=
  isDocComment comment && !((Info.ofComment comment).markers.inter fileTags).isEmpty

/-- What several records say together: the superclass type of the last that names one, and of the
other fields everything. -/
def Info.gather (infos : List Info) : Info where
  isOverride := infos.any Info.isOverride
  isConstructor := infos.any Info.isConstructor
  superType := (infos.filterMap Info.namedSuperType).getLast?
  suppressions := infos.foldl (fun names info => names.union info.suppressions) ∅
  markers := infos.foldl (fun names info => names.union info.markers) ∅
  params := infos.flatMap Info.params
  hasReturn := infos.any Info.hasReturn

/-- What the comments in front of a statement say about it. Comments other than documentation
comments say nothing, and a single documentation comment speaks for itself. -/
def Info.ofComments (comments : List String) : Info :=
  match (comments.filter isDocComment).map ofComment with
  | [info] => info
  | infos => gather infos

end OverrideElision.Doc
