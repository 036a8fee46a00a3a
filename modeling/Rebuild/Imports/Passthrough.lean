import Rebuild.Imports.Relative
import Rebuild.Path.Map
import Rebuild.Path.Normal
import Rebuild.Pool.Task

/-!
# The compiler that changes nothing

Its output is the text of the file.  The file needs what its task says and what its text imports by
relative specifiers, but not itself.
-/

namespace Rebuild

/-- What the file of a task needs. -/
def Task.needed (t : Task) : PathSet :=
  let found := (Imports.relative t.content).map fun s => Path.resolve t.path s
  (found.foldl (fun s p => s.insert p) (PathSet.ofPaths (t.dependencies.getD []))).erase t.path

/-- The compiler whose output is its input. -/
def passthrough : Compiler := fun t => .compiled t.content t.needed.toList

end Rebuild
