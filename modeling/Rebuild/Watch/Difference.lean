import Rebuild.Files.Tree
import Rebuild.Watch.Change

/-!
# Changes between two trees

What happened to the files between two looks at them, for a source that can only look.  A file counts
as changed when its bytes did.
-/

namespace Rebuild.FileTree

/-- The path of names, from the root on. -/
def absolute (names : List String) : Path := ⟨"/" ++ "/".intercalate names⟩

/-- What happened to the file with these names, which is there now. -/
def arrival? (old : FileTree) (names : List String) (now : File) : Option ChangeKind :=
  match old.entries[names]? with
  | some (.file before) => if before.bytes.data = now.bytes.data then none else some .change
  | _ => some .add

/-- The changes that lead from one tree to another, removals first. -/
def changesTo (old new : FileTree) : List Change :=
  let removed := old.entries.toList.filterMap fun (names, entry) =>
    match entry, new.entries[names]? with
    | .file _, some (.file _) => none
    | .file _, _ => some ⟨.remove, absolute names⟩
    | .directory, _ => none
  let arrived := new.entries.toList.filterMap fun (names, entry) =>
    match entry with
    | .file now => (old.arrival? names now).map fun kind => ⟨kind, absolute names⟩
    | .directory => none
  removed ++ arrived

end Rebuild.FileTree
