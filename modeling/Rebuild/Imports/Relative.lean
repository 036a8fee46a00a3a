import Rebuild.Text.Pattern

/-!
# Relative imports

The files next to a file that its text refers to: `import`, `require` and `@import` with a specifier that
begins with `./` or `../`.
-/

namespace Rebuild.Imports

open Text Pattern

/-- One character other than a quote. -/
def isUnquoted (c : Char) : Bool := !(c == '\'' || c == '"')

/-- A single or a double quote. -/
def isQuote (c : Char) : Bool := c == '\'' || c == '"'

/-- A character that a specifier without quotes can hold. -/
def isBareSpecifier (c : Char) : Bool := isUnquoted c && !isBlank c && c != ';'

/-- Any number of blanks. -/
def blanks : Pattern := .many isBlank 0 true

/-- At least one blank. -/
def someBlanks : Pattern := .many isBlank 1 true

/-- `./` or `../`, and at least one more character of the class. -/
def relativeSpecifier (member : Char → Bool) : Pattern :=
  .marked (sequence [.either (.exactly ['.', '.']) (.exactly ['.']), .exactly ['/'],
    .many member 1 true])

/-- What an import takes from a file, and the word `from`. -/
def clause (member : Char → Bool) : Pattern :=
  sequence [.many member 0 false, someBlanks, .exactly "from".toList, someBlanks]

/-- An `import` at the beginning of a line. -/
def importLine : Pattern :=
  sequence [.lineStart, blanks, .exactly "import".toList, someBlanks, .optional (clause isUnquoted),
    .one isQuote, relativeSpecifier isUnquoted, .one isQuote]

/-- A `require` of one specifier. -/
def requireCall : Pattern :=
  sequence [.exactly "require(".toList, blanks, .one isQuote, relativeSpecifier isUnquoted,
    .one isQuote, blanks, .exactly [')']]

/-- An `@import` at the beginning of a line, with or without quotes. -/
def atImportLine : Pattern :=
  sequence [.lineStart, blanks, .exactly "@import".toList, someBlanks, .optional (.one isQuote),
    relativeSpecifier isBareSpecifier, .optional (.one isQuote)]

/-- The members of a list, each where it stands first. -/
def distinct : List String → List String → List String
  | _, [] => []
  | seen, x :: xs => if x ∈ seen then distinct seen xs else x :: distinct (x :: seen) xs

/-- The relative specifiers of a text, each once: those of imports, of requires and of `@import`s, each
in the order of the text. -/
def relative (content : String) : List String :=
  distinct [] <|
    [importLine, requireCall, atImportLine].flatMap fun p => p.findAll content.toList

end Rebuild.Imports
