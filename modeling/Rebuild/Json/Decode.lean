import Rebuild.Json.Reader

/-!
# Values out of JSON

What a record accepts: an object in which no known name occurs twice, where other members are passed
over; or a list of the values in the order of the names.  A member is required, or may be missing or
`null` (`optional?`), or has a default when it is missing but may not be `null` (`withDefault?`).  A
map may repeat a name, and the last value counts.
-/

namespace Rebuild.Json

/-- The members of a record by name. -/
abbrev Record := List (String × Json)

/-- The string, if the value is one. -/
def string? : Json → Option String
  | .string s => some s
  | _ => none

/-- The truth value, if the value is one. -/
def bool? : Json → Option Bool
  | .bool b => some b
  | _ => none

/-- The natural number, if the value is an integer from zero to below `bound`. -/
def below? (bound : Nat) : Json → Option Nat
  | .number (.integer n) => if 0 ≤ n ∧ n < bound then some n.toNat else none
  | _ => none

/-- The number, if the value is an integer of 64 bits without sign. -/
def word64? : Json → Option Nat := below? UInt64.size

/-- The number, if the value is an integer of 32 bits without sign. -/
def word32? : Json → Option Nat := below? UInt32.size

/-- The items, each read by `item`. -/
def list? {α : Type} (item : Json → Option α) : Json → Option (List α)
  | .array items => items.mapM item
  | _ => none

/-- The members of an object, as a map that may hold `null`. -/
def members? : Json → Option Record
  | .object members => some members
  | _ => none

/-- Nothing for `null`, and otherwise the value. -/
def nullable? {α : Type} (read : Json → Option α) : Json → Option (Option α)
  | .null => some none
  | value => (read value).map some

/-- The members of a record with these names: of an object in which none of them occurs twice, or of a
list, where values for the last `spare` names may be missing. -/
def recordWith? (spare : Nat) (known : List String) : Json → Option Record
  | .object members =>
    if known.all fun name => (members.filter fun m => m.1 == name).length ≤ 1 then some members
    else none
  | .array items =>
    if items.length ≤ known.length ∧ known.length ≤ items.length + spare then some (known.zip items)
    else none
  | _ => none

/-- The members of a record that is written as a list only in full. -/
def record? (known : List String) (value : Json) : Option Record := recordWith? 0 known value

namespace Record

/-- A member that must be there. -/
def required? {α : Type} (r : Record) (name : String) (read : Json → Option α) : Option α :=
  (r.lookup name).bind read

/-- A member that may be missing or `null`. -/
def optional? {α : Type} (r : Record) (name : String) (read : Json → Option α) :
    Option (Option α) :=
  match r.lookup name with
  | none => some none
  | some value => nullable? read value

/-- A member that may be missing, but not `null`. -/
def withDefault? {α : Type} (r : Record) (name : String) (read : Json → Option α) (default : α) :
    Option α :=
  match r.lookup name with
  | none => some default
  | some value => read value

end Record

/-- A value of any kind where `null` stands for nothing, in its sorted form. -/
def metadata? (value : Json) : Option (Option Json) :=
  match value with
  | .null => some none
  | value => some (some value.sorted)

end Rebuild.Json
