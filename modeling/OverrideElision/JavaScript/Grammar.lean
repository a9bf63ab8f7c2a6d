/-! # Where the grammar comes from

A build that does not pack the grammar with it can still name a library that holds one. -/

namespace OverrideElision.JavaScript

/-- A grammar of JavaScript: the packed one, or one in a library of the user's. -/
inductive Grammar where
  | packed
  | library (path : String)
deriving DecidableEq, Repr

namespace Grammar

/-- The grammar to read with: the packed one before a library, and that one only when it is named
and stands where its name says. -/
def choose? (isPacked : Bool) (library : Option String) (stands : String → Bool) :
    Option Grammar :=
  if isPacked then some .packed
  else match library with
    | some path => if path ≠ "" ∧ stands path then some (.library path) else none
    | none => none

/-- What to tell a user without any grammar. -/
def unavailable : String :=
  "Could not load JavaScript grammar.\n" ++
  "- Install `tree_sitter_javascript` (pip install tree-sitter-javascript), OR\n" ++
  "- Build a shared library and set TS_LANGUAGE_SO to its path.\n" ++
  "See code comments for build instructions."

end Grammar

end OverrideElision.JavaScript
