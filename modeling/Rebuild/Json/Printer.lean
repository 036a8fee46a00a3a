import Rebuild.Json.Basic
import Rebuild.Text.Hex

/-!
# Writing JSON

`Json.compact` writes no blank at all, `Json.pretty` one member or item a line, two blanks a level.
Both escape the same characters: the quote, the backslash and everything below the blank.
-/

namespace Rebuild.Json

/-! ## Strings and numbers -/

/-- A character inside a quoted string. -/
def escapeChar (c : Char) : List Char :=
  if c = '"' then ['\\', '"']
  else if c = '\\' then ['\\', '\\']
  else if c = '\n' then ['\\', 'n']
  else if c = '\r' then ['\\', 'r']
  else if c = '\t' then ['\\', 't']
  else if c.toNat = 8 then ['\\', 'b']
  else if c.toNat = 12 then ['\\', 'f']
  else if c.toNat < 32 then ['\\', 'u'] ++ Text.Hex.ofNat 4 c.toNat
  else [c]

/-- A string between its quotes. -/
def quoted (s : String) : List Char :=
  '"' :: (s.toList.flatMap escapeChar ++ ['"'])

/-- The text of a number; what has no text as a number is `null`. -/
def numberText : JsonNumber → String
  | .integer value => value.repr
  | .float bits => (Text.Decimal.render? bits).getD "null"

/-- The text of a value that holds no other value. -/
def scalarText : Json → List Char
  | .null => "null".toList
  | .bool true => "true".toList
  | .bool false => "false".toList
  | .number value => (numberText value).toList
  | .string value => quoted value
  | _ => []

/-! ## Compact text -/

mutual

/-- The text of a value without blanks. -/
def compactChars : Json → List Char
  | .array items => '[' :: (compactItems items ++ [']'])
  | .object members => '{' :: (compactMembers members ++ ['}'])
  | value => scalarText value

/-- Items with commas between them. -/
def compactItems : List Json → List Char
  | [] => []
  | [item] => compactChars item
  | item :: next :: rest => compactChars item ++ ',' :: compactItems (next :: rest)

/-- Members with commas between them. -/
def compactMembers : List (String × Json) → List Char
  | [] => []
  | [(name, value)] => quoted name ++ ':' :: compactChars value
  | (name, value) :: next :: rest =>
    quoted name ++ ':' :: (compactChars value ++ ',' :: compactMembers (next :: rest))

end

/-- The text of a value without blanks. -/
def compact (value : Json) : String := String.ofList value.compactChars

/-! ## Indented text -/

/-- A new line and `level` steps of two blanks. -/
def newLine (level : Nat) : List Char :=
  '\n' :: List.replicate (2 * level) ' '

mutual

/-- The text of a value whose first line stands at `level`. -/
def prettyChars (level : Nat) : Json → List Char
  | .array [] => ['[', ']']
  | .array items => '[' :: (prettyItems (level + 1) items ++ newLine level ++ [']'])
  | .object [] => ['{', '}']
  | .object members => '{' :: (prettyMembers (level + 1) members ++ newLine level ++ ['}'])
  | value => scalarText value

/-- Items, each on its own line. -/
def prettyItems (level : Nat) : List Json → List Char
  | [] => []
  | [item] => newLine level ++ prettyChars level item
  | item :: next :: rest =>
    newLine level ++ prettyChars level item ++ ',' :: prettyItems level (next :: rest)

/-- Members, each on its own line. -/
def prettyMembers (level : Nat) : List (String × Json) → List Char
  | [] => []
  | [(name, value)] => newLine level ++ quoted name ++ ':' :: ' ' :: prettyChars level value
  | (name, value) :: next :: rest =>
    newLine level ++ quoted name ++ ':' :: ' ' ::
      (prettyChars level value ++ ',' :: prettyMembers level (next :: rest))

end

/-- The text of a value, indented by two blanks a level. -/
def pretty (value : Json) : String := String.ofList (value.prettyChars 0)

end Rebuild.Json
