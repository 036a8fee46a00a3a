import Rebuild.Path.Map
import Rebuild.Files.OsError
import Rebuild.Timestamp
import Std.Data.TreeMap

/-!
# File trees

A whole file system as a value: a table from the names that lead to a file or directory, root first,
to what is there, and the directory that relative paths start from.  In the order of the table a
directory comes right before what is below it.

* **Finding.**  `FileTree.locate` follows a path name by name, as the operating system does: every
  name on the way has to be a directory, before a `..` too.
* **Reading.**  `find?`, `readBytes`, `readText`, `isDirectory`.
* **Writing.**  `createDirectory`, `write`, `rename`, `removeFile`, and the same for whole trees.
-/

namespace Rebuild

/-- A file. -/
structure File where
  bytes : ByteArray
  /-- When it was changed last, if that is known. -/
  modified : Option Timestamp := none

instance : DecidableEq File := fun a b =>
  decidable_of_iff (a.bytes.data = b.bytes.data ∧ a.modified = b.modified) <| by
    cases a
    cases b
    simp [ByteArray.ext_iff]

/-- What is found under a name. -/
inductive FileEntry where
  | directory
  | file (f : File)
  deriving DecidableEq

/-- Files and directories, and the directory to start from. -/
structure FileTree where
  entries : Std.TreeMap (List String) FileEntry compare := ∅
  /-- The names of the working directory. -/
  here : List String := []

namespace FileTree

/-! ## Finding -/

/-- Where a path leads: an existing directory and, unless the path leads to that directory itself,
the name in it. -/
structure Target where
  parent : List String
  name : Option String
  /-- The path ends in a slash, so what it names has to be a directory. -/
  slash : Bool
  deriving DecidableEq, Repr

/-- The names of the target. -/
def Target.names (t : Target) : List String :=
  match t.name with
  | some n => t.parent ++ [n]
  | none => t.parent

/-- What is under these names; the root is always there. -/
def entry? (tree : FileTree) (names : List String) : Option FileEntry :=
  if names = [] then some .directory else tree.entries[names]?

/-- The most bytes that a name may have. -/
def maxName : Nat := 255

/-- The most bytes that a path may have. -/
def maxPath : Nat := 4095

/-- Where the steps of a path lead from an existing directory. -/
def walk (tree : FileTree) (at_ : List String) (slash : Bool) : List String → Except OsError Target
  | [] => .ok ⟨at_, none, slash⟩
  | step :: rest =>
    if step = "." then tree.walk at_ slash rest
    else if step = ".." then tree.walk at_.dropLast slash rest
    else if maxName < step.utf8ByteSize then .error .nameTooLong
    else if rest = [] then .ok ⟨at_, some step, slash⟩
    else
      match tree.entry? (at_ ++ [step]) with
      | none => .error .notFound
      | some (.file _) => .error .notDirectory
      | some .directory => tree.walk (at_ ++ [step]) slash rest

/-- Where a path leads. -/
def locate (tree : FileTree) (p : Path) : Except OsError Target :=
  let pieces := (Text.split '/' p.text.toList).map String.ofList
  if p.text.isEmpty then .error .notFound
  else if maxPath < p.text.utf8ByteSize then .error .nameTooLong
  else tree.walk (if p.isAbsolute then [] else tree.here) (p.text.endsWith "/")
    (pieces.filter (· ≠ ""))

/-- What a target leads to. -/
def look (tree : FileTree) (t : Target) : Except OsError FileEntry :=
  match tree.entry? t.names with
  | none => .error .notFound
  | some .directory => .ok .directory
  | some (.file f) => if t.slash then .error .notDirectory else .ok (.file f)

/-! ## Reading -/

/-- What is at a path. -/
def find? (tree : FileTree) (p : Path) : Except OsError FileEntry := do
  tree.look (← tree.locate p)

/-- The path leads to a directory. -/
def isDirectory (tree : FileTree) (p : Path) : Bool :=
  match tree.find? p with
  | .ok .directory => true
  | _ => false

/-- The path leads to a file. -/
def isFile (tree : FileTree) (p : Path) : Bool :=
  match tree.find? p with
  | .ok (.file _) => true
  | _ => false

/-- The bytes of a file. -/
def readBytes (tree : FileTree) (p : Path) : Except OsError ByteArray := do
  match ← tree.find? p with
  | .file f => return f.bytes
  | .directory => throw .isDirectory

/-- The text of a file. -/
def readText (tree : FileTree) (p : Path) : Except OsError String := do
  match String.fromUTF8? (← tree.readBytes p) with
  | some text => return text
  | none => throw .invalidText

/-- Everything below the directory with these names, in order, each with its names from there on. -/
def below (tree : FileTree) (names : List String) : List (List String × FileEntry) :=
  tree.entries.toList.filterMap fun (found, entry) =>
    if names.isPrefixOf found ∧ names ≠ found then some (found.drop names.length, entry) else none

/-! ## Writing -/

/-- The tree with this under the names. -/
def set (tree : FileTree) (names : List String) (entry : FileEntry) : FileTree :=
  { tree with entries := tree.entries.insert names entry }

/-- The tree without what is under the names. -/
def erase (tree : FileTree) (names : List String) : FileTree :=
  { tree with entries := tree.entries.erase names }

/-- The tree with a new directory. -/
def createDirectory (tree : FileTree) (p : Path) : Except OsError FileTree := do
  let t ← tree.locate p
  match tree.entry? t.names with
  | some _ => throw .alreadyExists
  | none => return tree.set t.names .directory

/-- The tree with the file written, whether it was there or not. -/
def write (tree : FileTree) (p : Path) (file : File) : Except OsError FileTree := do
  let t ← tree.locate p
  if t.slash then throw .isDirectory
  match tree.entry? t.names with
  | some .directory => throw .isDirectory
  | _ => return tree.set t.names (.file file)

/-- The tree without a file. -/
def removeFile (tree : FileTree) (p : Path) : Except OsError FileTree := do
  let t ← tree.locate p
  match ← tree.look t with
  | .directory => throw .isDirectory
  | .file _ => return tree.erase t.names

/-- The tree without whatever is under the names. -/
def removeAll (tree : FileTree) (names : List String) : FileTree :=
  { tree with entries := tree.entries.filter fun found _ => !names.isPrefixOf found }

/-- The tree without what is at a path. -/
def remove (tree : FileTree) (p : Path) : Except OsError FileTree := do
  let t ← tree.locate p
  let _ ← tree.look t
  return tree.removeAll t.names

/-- Whether what is moved may take the place of what is at its goal. -/
def checkReplace (tree : FileTree) (moved : FileEntry) (goal : Target) : Except OsError Unit :=
  match moved, tree.entry? goal.names with
  | .file _, some .directory => .error .isDirectory
  | .directory, some (.file _) => .error .notDirectory
  | .directory, some .directory =>
    if (tree.below goal.names).isEmpty then .ok () else .error .directoryNotEmpty
  | _, _ => .ok ()

/-- The tree with what is at `source`, and all below it, moved to `goal`. -/
def rename (tree : FileTree) (source goal : Path) : Except OsError FileTree := do
  let s ← tree.locate source
  let g ← tree.locate goal
  if s.name.isNone || g.name.isNone then throw .resourceBusy
  let moved ← tree.look s
  if g.slash && moved != .directory then throw .notDirectory
  if s.names = g.names then return tree
  tree.checkReplace moved g
  let inside := tree.below s.names
  let cleared := tree.removeAll s.names
  return inside.foldl (fun t (names, entry) => t.set (g.names ++ names) entry)
    (cleared.set g.names moved)

/-! ## Directories on the way -/

/-- The path and the directories around it, the innermost first. -/
def ancestry : Nat → Path → List Path
  | 0, p => [p]
  | n + 1, p =>
    match p.parent? with
    | some parent => p :: ancestry n parent
    | none => [p]

/-- All directories around a path, with the path itself. -/
def lineage (p : Path) : List Path := ancestry p.components.length p

end FileTree
end Rebuild
