import Rebuild.Imports.Relative
import Std.Data.TreeSet

/-!
# Packages

The packages that a text refers to: the specifiers of its imports, exports and requires that name no
file, each cut down to the package that it lies in.
-/

namespace Rebuild.Imports

open Text Pattern

/-- The package that the parts of a specifier name: the first one, or the first two after an `@`. -/
def packageOf? : List (List Char) → Option String
  | ('@' :: scope) :: name :: _ =>
    if name = [] ∨ scope = [] then none else some (String.ofList ('@' :: scope ++ '/' :: name))
  | ['@' :: _] => none
  | first :: _ => some (String.ofList first)
  | [] => none

/-- The package that a specifier lies in.  A relative or absolute path, an address and a builtin of the
runtime have none. -/
def package? (specifier : String) : Option String :=
  let cs := specifier.toList
  if cs.isEmpty || cs.head? == some '.' || cs.head? == some '/' then none
  else if (dropStart? "node:".toList cs).isSome || specifier.contains "://" then none
  else packageOf? (split '/' cs)

/-- A character of an import clause. -/
def isClause (c : Char) : Bool := isUnquoted c && c != ';'

/-- A specifier in quotes. -/
def quoted : Pattern :=
  sequence [.one isQuote, .marked (.many isUnquoted 1 true), .one isQuote]

/-- An `import` of a specifier. -/
def importOf : Pattern :=
  sequence [.wordEdge, .exactly "import".toList, someBlanks, .optional (clause isClause), quoted]

/-- An `export` out of a specifier. -/
def exportOf : Pattern :=
  sequence [.wordEdge, .exactly "export".toList, someBlanks, clause isClause, quoted]

/-- A call of `import` or `require`. -/
def callOf : Pattern :=
  sequence [.wordEdge, .either (.exactly "import".toList) (.exactly "require".toList), blanks,
    .exactly ['('], blanks, quoted, blanks, .exactly [')']]

/-- The packages that a text refers to, each once and in the order of strings. -/
def packages (content : String) : List String :=
  let specifiers := [importOf, exportOf, callOf].flatMap fun p => p.findAll content.toList
  (Std.TreeSet.ofList (specifiers.filterMap package?) compare).toList

end Rebuild.Imports
