import Rebuild.Text.Decimal

/-!
# JSON values

The values of the format, with the members of an object in the order in which they were written,
repetitions included.  A reader of a record decides what a repeated name means (`Rebuild.Json.Decode`).

Integers are kept apart from numbers with a fraction or an exponent, as a count must have been
written as an integer.
-/

namespace Rebuild

/-- A JSON number. -/
inductive JsonNumber where
  /-- A number written without fraction and exponent. -/
  | integer (value : Int)
  /-- Any other number, by the bits of its double. -/
  | float (bits : UInt64)
  deriving DecidableEq, Repr, Inhabited

/-- A JSON value. -/
inductive Json where
  | null
  | bool (value : Bool)
  | number (value : JsonNumber)
  | string (value : String)
  | array (items : List Json)
  | object (members : List (String × Json))
  deriving Repr, Inhabited, BEq

namespace Json

/-- The number `n`. -/
def nat (n : Nat) : Json := .number (.integer n)

/-- An array of strings. -/
def strings (items : List String) : Json := .array (items.map .string)

/-- The member's value for something, and no member for nothing. -/
def optionalMember (name : String) (value : Option Json) : List (String × Json) :=
  match value with
  | some v => [(name, v)]
  | none => []

/-- The value, or `null` for nothing. -/
def ofOption (value : Option Json) : Json := value.getD .null

/-- A member inserted by name into members sorted by name; an earlier one of its name goes. -/
def insertMember (name : String) (value : Json) : List (String × Json) → List (String × Json)
  | [] => [(name, value)]
  | (n, v) :: rest =>
    match compare name n with
    | .lt => (name, value) :: (n, v) :: rest
    | .eq => (name, value) :: rest
    | .gt => (n, v) :: insertMember name value rest

mutual

/-- The value with the members of every object sorted by name, and of repeated ones the last. -/
def sorted : Json → Json
  | .array items => .array (sortedItems items)
  | .object members => .object (sortedMembers members [])
  | value => value

/-- `sorted` for each item. -/
def sortedItems : List Json → List Json
  | [] => []
  | item :: items => item.sorted :: sortedItems items

/-- The members, sorted, among those that stand before them. -/
def sortedMembers : List (String × Json) → List (String × Json) → List (String × Json)
  | [], done => done
  | (name, value) :: rest, done => sortedMembers rest (insertMember name value.sorted done)

end

end Json
end Rebuild
