import Rebuild.Error
import Rebuild.Files.Tree
import Rebuild.Text.Utf8

/-!
# Artifacts

The files that a build has put out, and the unit that each belongs to.  A component after a directory
`intents` or `units` names the unit, and otherwise the name of the file up to its first dot does; with
known units, the first of them that is a component or the stem of the file.
-/

namespace Rebuild

/-- A file that was put out. -/
structure Artifact where
  path : Path
  content : String
  deriving DecidableEq, Repr

namespace Artifact

/-- The bytes of the content. -/
def size (a : Artifact) : Nat := a.content.utf8ByteSize

/-! ## Units -/

/-- The text of a component where it stands alone. -/
def label : Component → String
  | .root => "/"
  | c => c.text

/-- The directories whose members name units. -/
def unitDirectories : List String := ["intents", "units"]

/-- The unit of artifacts that belong to no known unit. -/
def unassigned : String := "(unassigned)"

/-- A name up to its first dot. -/
def stem (name : String) : String := String.ofList (name.toList.takeWhile (· ≠ '.'))

/-- The name after the first directory of units. -/
def afterUnitDirectory? : List String → Option String
  | a :: b :: rest => if a ∈ unitDirectories then some b else afterUnitDirectory? (b :: rest)
  | _ => none

/-- The unit that a path tells of. -/
def unitOf (p : Path) : String :=
  let labels := p.components.map label
  match afterUnitDirectory? labels with
  | some name => stem name
  | none => (labels.getLast?.map stem).getD ""

/-- The first known unit that a path tells of. -/
def knownUnit (p : Path) (known : List String) : String :=
  let labels := p.components.map label
  let last := (labels.getLast?.map stem).getD ""
  (known.find? fun id => id == last || labels.contains id).getD unassigned

/-! ## Loading -/

/-- The failure of a walk at a path. -/
def walkFailure (p : Path) (cause : OsError) : BuildError :=
  .fileSystem p "walk output directory"
    (.other ("IO error for operation on " ++ p.text ++ ": " ++ cause.message))

/-- The text of a file, with a mark for each piece that is no text. -/
def textOf (f : File) : String := Text.Utf8.decodeLossy f.bytes.toList

/-- All files of a directory, in order and each with its path from there; of a file, itself. -/
def load (tree : FileTree) (directory : Path) : Except BuildError (List Artifact) :=
  match tree.locate directory, tree.find? directory with
  | .error cause, _ => .error (walkFailure directory cause)
  | _, .error cause => .error (walkFailure directory cause)
  | _, .ok (.file f) => .ok [⟨⟨""⟩, textOf f⟩]
  | .ok target, .ok .directory =>
    .ok <| (tree.below target.names).filterMap fun (names, entry) =>
      match entry with
      | .file f => some ⟨⟨"/".intercalate names⟩, textOf f⟩
      | .directory => none

end Artifact
end Rebuild
