import OverrideElision.Text.Quoted

/-! # JSON documents

Values and their text: members and items on lines of their own, two blanks deeper than what holds
them, and every character outside printable ASCII escaped. -/

namespace OverrideElision

/-- A JSON value. The only numbers are natural, and the members of an object keep their order. -/
inductive Json where
  | null
  | bool (value : Bool)
  | number (value : Nat)
  | string (value : String)
  | array (items : List Json)
  | object (members : List (String × Json))

namespace Json

/-- A code unit of sixteen bits as an escape. -/
def unitEscape (unit : Nat) : List Char :=
  '\\' :: 'u' :: Text.hexDigits 4 unit

/-- A character as it stands in a string. Characters beyond the sixteen-bit range are written as a
surrogate pair. -/
def escaped (c : Char) : List Char :=
  if c = '"' then ['\\', '"']
  else if c = '\\' then ['\\', '\\']
  else if c = '\n' then ['\\', 'n']
  else if c = '\r' then ['\\', 'r']
  else if c = '\t' then ['\\', 't']
  else if c = '\x08' then ['\\', 'b']
  else if c = '\x0c' then ['\\', 'f']
  else if 32 ≤ c.toNat ∧ c.toNat < 127 then [c]
  else if c.toNat < 0x10000 then unitEscape c.toNat
  else
    unitEscape (0xD800 + (c.toNat - 0x10000) / 0x400) ++
      unitEscape (0xDC00 + (c.toNat - 0x10000) % 0x400)

/-- A string with its quotes. -/
def stringText (s : String) : List Char :=
  '"' :: s.toList.flatMap escaped ++ ['"']

/-- A line end and the blanks that a line at this depth starts with. -/
def lineBreak (depth : Nat) : List Char :=
  '\n' :: List.replicate (2 * depth) ' '

mutual

/-- A value as text, on a line at this depth. -/
def text (depth : Nat) : Json → List Char
  | .null => "null".toList
  | .bool true => "true".toList
  | .bool false => "false".toList
  | .number n => Nat.toDigits 10 n
  | .string s => stringText s
  | .array [] => "[]".toList
  | .array (item :: items) =>
    '[' :: lineBreak (depth + 1) ++ item.text (depth + 1) ++ itemsText (depth + 1) items ++
      lineBreak depth ++ [']']
  | .object [] => ['{', '}']
  | .object ((key, value) :: members) =>
    '{' :: lineBreak (depth + 1) ++ stringText key ++ ':' :: ' ' :: value.text (depth + 1) ++
      membersText (depth + 1) members ++ lineBreak depth ++ ['}']

/-- The items after the first, each with the comma before it. -/
def itemsText (depth : Nat) : List Json → List Char
  | [] => []
  | item :: items => ',' :: lineBreak depth ++ item.text depth ++ itemsText depth items

/-- The members after the first, each with the comma before it. -/
def membersText (depth : Nat) : List (String × Json) → List Char
  | [] => []
  | (key, value) :: members =>
    ',' :: lineBreak depth ++ stringText key ++ ':' :: ' ' :: value.text depth ++
      membersText depth members

end

/-- The document that a value is. -/
def document (value : Json) : String :=
  String.ofList (value.text 0)

/-- A string, or null where there is none. -/
def ofString? : Option String → Json
  | none => .null
  | some s => .string s

end Json

end OverrideElision
