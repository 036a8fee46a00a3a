import Rebuild.Event
import Rebuild.Path.Map

/-!
# Changes of files

What a watcher of the file system reports, and what of it is a change: a file that came, changed or
went.  A rename that names both files is a removal of the first and an addition of the other.
-/

namespace Rebuild

/-- Something that the file system reports. -/
inductive FileReport where
  /-- Files came to be. -/
  | created
  /-- Files have other content, or changed in a way that is not known. -/
  | modified
  /-- Something about files changed, but not their content. -/
  | metadata
  /-- Files went away under another name. -/
  | renamedFrom
  /-- Files came from another name. -/
  | renamedTo
  /-- The first file was renamed to the other one. -/
  | renamed
  /-- Files went away. -/
  | removed
  /-- Files were opened or closed. -/
  | accessed
  /-- Anything else. -/
  | unknown
  deriving DecidableEq, Repr

/-- A change of one file. -/
structure Change where
  kind : ChangeKind
  path : Path
  deriving DecidableEq, Repr

/-- What a source of changes delivers. -/
inductive WatchInput where
  | change (change : Change)
  /-- The source had a failure, and goes on. -/
  | failure (message : String)
  deriving DecidableEq, Repr

/-- Changed files, each with the last kind of change that was seen. -/
abbrev ChangeSet := PathMap ChangeKind

namespace FileReport

/-- The kind of change that a report tells of, if it is the same for all files. -/
def kind? : FileReport → Option ChangeKind
  | created => some .add
  | modified => some .change
  | renamedFrom => some .remove
  | renamedTo => some .add
  | removed => some .remove
  | metadata | renamed | accessed | unknown => none

/-- The changes of a report about these files. -/
def changes : FileReport → List Path → List Change
  | renamed, [] => []
  | renamed, old :: new => ⟨.remove, old⟩ :: new.map (Change.mk .add)
  | report, paths => (report.kind?.map fun kind => paths.map (Change.mk kind)).getD []

end FileReport
end Rebuild
