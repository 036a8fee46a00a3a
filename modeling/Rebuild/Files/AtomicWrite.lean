import Rebuild.Files.Tree
import Rebuild.Error

/-!
# Writing files as a whole

`FileTree.writeAtomic` writes the content to a fresh file beside the goal and then renames it, so
that whoever reads the goal finds either the old content or the new one.

Each single operation can also fail for a reason that the tree does not show, such as a full disk.
Which of them do is an argument (`Faults`), and what the tree itself forbids fails in any case.
-/

namespace Rebuild

/-- A single operation of an atomic write. -/
inductive FileOperation where
  /-- Creating a directory that the goal needs. -/
  | createDirectory (p : Path)
  | createTemporary
  | writeTemporary
  | syncTemporary
  | rename
  | removeTemporary
  deriving DecidableEq, Repr

/-- Which operations fail, and why. -/
abbrev Faults := FileOperation → Option OsError

/-- Nothing fails of itself. -/
def Faults.none : Faults := fun _ => Option.none

namespace FileTree

/-- The outcome of an operation on the tree, unless it fails of itself. -/
def attempt {α : Type} (faults : Faults) (operation : FileOperation) (act : Except OsError α) :
    Except OsError α :=
  match faults operation with
  | some cause => .error cause
  | none => act

/-- The tree with the first of these directories, which lie one around the other, and those around it
as far as they are missing.  The tree comes back on failure too, with the directories made so far. -/
def createDirectories (faults : Faults) (tree : FileTree) :
    List Path → FileTree × Except OsError Unit
  | [] => (tree, .ok ())
  | p :: around =>
    let create (tree : FileTree) : FileTree × Except OsError Unit :=
      match attempt faults (.createDirectory p) (tree.createDirectory p) with
      | .ok made => (made, .ok ())
      | .error cause => if tree.isDirectory p then (tree, .ok ()) else (tree, .error cause)
    if p.text.isEmpty then (tree, .ok ())
    else
      match attempt faults (.createDirectory p) (tree.createDirectory p) with
      | .ok made => (made, .ok ())
      | .error .notFound =>
        match createDirectories faults tree around with
        | (made, .ok ()) => create made
        | (made, .error cause) => (made, .error cause)
      | .error cause => if tree.isDirectory p then (tree, .ok ()) else (tree, .error cause)

/-- The tree without the temporary file, if it can be removed. -/
def discard (faults : Faults) (tree : FileTree) (temporary : Path) : FileTree :=
  match attempt faults .removeTemporary (tree.removeFile temporary) with
  | .ok cleaned => cleaned
  | .error _ => tree

/-- The tree with the content in a temporary file. -/
def fillTemporary (faults : Faults) (tree : FileTree) (temporary : Path) (file : File) :
    FileTree × Except BuildError Unit :=
  match attempt faults .createTemporary (tree.write temporary { file with bytes := .empty }) with
  | .error cause => (tree, .error (.fileSystem temporary "create temporary file" cause))
  | .ok opened =>
    match attempt faults .writeTemporary (opened.write temporary file) with
    | .error cause => (opened, .error (.fileSystem temporary "write to temporary file" cause))
    | .ok written =>
      match faults .syncTemporary with
      | some cause => (written, .error (.fileSystem temporary "sync temporary file" cause))
      | none => (written, .ok ())

/-- The name of the temporary file, which `fresh` makes unlike any other. -/
def temporaryName (fresh : String) : Path := ⟨"." ++ fresh ++ ".tmp"⟩

/-- The tree with the file written at once, and what went wrong. -/
def writeAtomic (faults : Faults) (fresh : String) (tree : FileTree) (goal : Path) (file : File) :
    FileTree × Except BuildError Unit :=
  match goal.parent? with
  | none => (tree, .error (.configuration (.noParent goal)))
  | some parent =>
    match createDirectories faults tree (lineage parent) with
    | (made, .error cause) => (made, .error (.fileSystem parent "create parent directory" cause))
    | (made, .ok ()) =>
      let temporary := parent.join (temporaryName fresh)
      match fillTemporary faults made temporary file with
      | (filled, .error error) => (filled.discard faults temporary, .error error)
      | (filled, .ok ()) =>
        match attempt faults .rename (filled.rename temporary goal) with
        | .error cause =>
          (filled.discard faults temporary, .error (.fileSystem goal "atomic rename" cause))
        | .ok done => (done, .ok ())

end FileTree
end Rebuild
