import Rebuild.Path.Basic

/-!
# Normal forms of paths

`Path.normalize` folds `.` and `..` away as far as the text alone allows; the file system is never
asked, so a path of a file that is gone has a normal form too.

A `..` takes the component before it away, whatever that is; where there is none, or only the root,
it stays.
-/

namespace Rebuild.Path

/-- One more component on a normal form that is kept in reverse. -/
def pushNormal (done : List Component) : Component → List Component
  | .current => done
  | .parent =>
    match done with
    | [] => [.parent]
    | [.root] => [.parent, .root]
    | _ :: before => before
  | step => step :: done

/-- The normal form of a list of components. -/
def normalSteps (steps : List Component) : List Component :=
  (steps.foldl pushNormal []).reverse

/-- The path without `.`, and without each `..` that has something to take away. -/
def normalize (p : Path) : Path :=
  ofComponents (normalSteps p.components)

/-- What `reference` names for the file `file`: it is seen from the directory of that file. -/
def resolve (file : Path) (reference : String) : Path :=
  ((file.parent?.getD ⟨""⟩).join ⟨reference⟩).normalize

/-- `p` in normal form, seen from `root` when it is relative. -/
def absolutize (root p : Path) : Path :=
  if p.isAbsolute then p.normalize else (root.join p).normalize

end Rebuild.Path
