import OverrideElision.JavaScript.Statement
import OverrideElision.Syntax.Reading

/-! # Reading sources

The readers of expressions and statements use each other to a depth that the length of the source
bounds: on the way down at most two of them stand between one token and the next. -/

namespace OverrideElision.JavaScript

open Syntax (Node Kind Field SourceTree)

/-- The readers whose parts are nested less than `depth` deep. -/
def rules : (depth : Nat) → Rules
  | 0 => ⟨0, fun _ => fail, fail, fail⟩
  | depth + 1 =>
    { limit := depth + 1
      assignment := fun inAllowed state => assignment (rules depth) inAllowed state
      leftHandSide := fun state => leftHandSide (rules depth) true state
      statement := fun state => statement (rules depth) state }

/-- The line that names an interpreter at the start of a source, and the text after it. -/
def interpreterLine (text : List Char) : List Char × List Char :=
  if ['#', '!'].isPrefixOf text then (text.takeWhile (· != '\n'), text.dropWhile (· != '\n'))
  else ([], text)

/-- The scope of a script at its top level. -/
def scriptScope : Scope := ⟨{}, false⟩

/-- The scope of a module at its top level, which is asynchronous code. -/
def moduleScope : Scope := ⟨{ isAsync := true }, true⟩

/-- The syntax tree of a source, read in a scope. -/
def parseIn (scope : Scope) (source : String) : Except SyntaxError Node := do
  let (line, text) := interpreterLine source.toList
  let depth := 4 * (source.length + 4)
  let start : ReaderState := ⟨⟨text, byteCount line⟩, byteCount line, scope⟩
  let (statements, _) ← (statementList (rules depth) (·.token == .finish)).run start
  let before :=
    if line.isEmpty then [] else [leafOver (.other "hash_bang_line") 0 (byteCount line)]
  return { leafOver (.other "program") 0 source.utf8ByteSize with children := before ++ statements }

/-- The syntax tree of a source. What cannot be read as a script is read as a module. -/
def parse (source : String) : Except SyntaxError Node :=
  match parseIn scriptScope source with
  | .ok tree => .ok tree
  | .error _ => parseIn moduleScope source

/-- A source with its syntax tree. -/
def sourceTree (name text : String) : Except SyntaxError SourceTree := do
  return ⟨name, text, ← parse text⟩

end OverrideElision.JavaScript
