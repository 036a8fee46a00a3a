/-!
# TOML values

The values that a configuration is written in: strings, integers, arrays and tables.  Truth values,
moments and numbers with a fraction have no place in one.

`Toml.assign` puts a value under a key with dots.  No key is given twice, and only a table that such
keys have made can be extended by another one.
-/

namespace Rebuild

/-- A value. -/
inductive Toml where
  | string (text : String)
  | integer (value : Int)
  | array (items : List Toml)
  /-- A table; an open one was made by keys with dots, and more of them can follow. -/
  | table (isOpen : Bool) (members : List (String × Toml))
  deriving Repr, Inhabited

namespace Toml

/-- The members of a table. -/
abbrev Members := List (String × Toml)

/-- The members with a value under a key with dots. -/
def assign : List String → Toml → Members → Option Members
  | [], _, _ => none
  | [name], value, members =>
    if (members.lookup name).isSome then none else some (members ++ [(name, value)])
  | name :: more :: names, value, members =>
    match members.lookup name with
    | none => (assign (more :: names) value []).map fun inner => members ++ [(name, table true inner)]
    | some (.table true inner) =>
      (assign (more :: names) value inner).map fun inner =>
        members.map fun m => if m.1 = name then (name, table true inner) else m
    | some _ => none

end Toml
end Rebuild
