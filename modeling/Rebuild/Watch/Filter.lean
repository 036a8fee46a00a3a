import Rebuild.Glob.Reader
import Rebuild.Error

/-!
# Which files are watched

A file counts if one of the patterns matches its path below the root and none of the ignored
patterns does.
-/

namespace Rebuild

/-- Patterns for the files below a directory. -/
structure PathFilter where
  root : Path
  included : List Glob.Pattern
  ignored : List Glob.Pattern

namespace PathFilter

/-- The patterns that texts write. -/
def readPatterns (texts : List String) : Except BuildError (List Glob.Pattern) :=
  texts.mapM fun text =>
    match Glob.parse text with
    | .ok pattern => .ok pattern
    | .error fault => .error (.configuration (.invalidGlob text fault))

/-- The filter for these patterns. -/
def ofTexts (root : Path) (patterns ignored : List String) : Except BuildError PathFilter := do
  let included ← readPatterns patterns
  let ignored ← readPatterns ignored
  return ⟨root, included, ignored⟩

/-- The path that is matched: an absolute one is seen from the root, and outside of it there is
none. -/
def relative? (f : PathFilter) (p : Path) : Option Path :=
  if p.isAbsolute then f.root.relativeTo? p else some p

/-- The file counts. -/
def accepts (f : PathFilter) (p : Path) : Bool :=
  match f.relative? p with
  | none => false
  | some relative =>
    let bytes := relative.text.toUTF8.toList
    f.included.any (·.matches bytes) && !f.ignored.any (·.matches bytes)

end PathFilter
end Rebuild
