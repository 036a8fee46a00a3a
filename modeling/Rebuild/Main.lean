import Rebuild.Bundle.Gzip
import Rebuild.CommandLine.Run
import Rebuild.Imports.Passthrough
import Rebuild.Watch.Difference
import Std.Time.DateTime.Timestamp

/-!
# The program

Takes the files from the disk, runs a command on them, and puts back what the command changed.
-/

namespace Rebuild.Main

/-! ## Files -/

/-- The moment of a file's time. -/
def moment (time : IO.FS.SystemTime) : Timestamp := .ofUnix time.sec.toNat time.nsec.toNat

/-- The file at a path, which is read again only if it differs from what is known of it. -/
def loadFile (known : Option FileEntry) (path : String) (data : IO.FS.Metadata) : IO FileEntry := do
  let modified := moment data.modified
  match known with
  | some (.file f) =>
    if f.modified = some modified ∧ f.bytes.size = data.byteSize.toNat then return .file f
  | _ => pure ()
  return .file ⟨← IO.FS.readBinFile path, some modified⟩

/-- The tree with all that is in a directory of the disk. -/
partial def loadDirectory (known : FileTree) (tree : FileTree) (names : List String) : IO FileTree := do
  let mut tree := tree.set names .directory
  for found in ← (← IO.FS.realPath (FileTree.absolute names).text).readDir do
    let names := names ++ [found.fileName]
    try
      let data ← found.path.symlinkMetadata
      match data.type with
      | .dir => tree ← loadDirectory known tree names
      | .file =>
        let path := (FileTree.absolute names).text
        tree := tree.set names (← loadFile known.entries[names]? path data)
      | _ => pure ()
    catch _ => pure ()
  return tree

/-- The tree with what a path leads to, and the directories on the way. -/
def loadPath (known : FileTree) (tree : FileTree) (path : Path) : IO FileTree := do
  let real ← try pure (← IO.FS.realPath path.text).toString catch _ => pure ""
  let names := (Path.components ⟨real⟩).filterMap fun c =>
    match c with
    | .name text => some text
    | _ => none
  if names.isEmpty then return tree
  let around := (List.range names.length).map names.take
  let tree := around.foldl (fun tree names => tree.set names .directory) tree
  let data ← (← IO.FS.realPath real).metadata
  match data.type with
  | .dir => loadDirectory known tree names
  | .file => return tree.set names (← loadFile known.entries[names]? real data)
  | _ => return tree

/-- The tree with what these paths lead to. -/
def load (known : FileTree) (here : Path) (paths : List Path) : IO FileTree := do
  let names := here.components.filterMap fun c => if c = .root then none else some c.text
  let mut tree : FileTree := { here := names }
  for path in paths do
    tree ← loadPath known tree path
  return tree

/-- Writes a file as a whole. -/
def storeFile (fresh path : String) (f : File) : IO Unit := do
  let temporary := path ++ "." ++ fresh ++ ".tmp"
  IO.FS.writeBinFile temporary f.bytes
  IO.FS.rename temporary path

/-- Puts on the disk what differs between two trees. -/
def store (fresh : String) (old new : FileTree) : IO Unit := do
  for (names, entry) in new.entries.toList do
    let path := (FileTree.absolute names).text
    if old.entries[names]? ≠ some entry then
      match entry with
      | .directory => IO.FS.createDirAll path
      | .file f => storeFile fresh path f
  for (names, entry) in old.entries.toList do
    if !new.entries.contains names then
      match entry with
      | .directory => pure ()
      | .file _ => IO.FS.removeFile (FileTree.absolute names).text

/-! ## Surroundings -/

/-- The moment that it is. -/
def now : IO Timestamp := do
  let time ← Std.Time.Timestamp.now
  return .ofUnix time.val.second.val.toNat time.val.nano.val.toNat

/-- A word that nobody else has. -/
def fresh : IO String := do
  return String.ofList (Text.Hex.encode (← IO.getRandomBytes 16).toList)

/-- The variables that matter. -/
def environment : IO Environment := do
  let names := ["KILN_CACHE_DIR", "KILN_WORKERS", "KILN_QUEUE_CAPACITY", "KILN_DEBOUNCE_MS",
    "XDG_CONFIG_HOME"]
  let values ← names.mapM fun name => return (← IO.getEnv name).map (name, ·)
  return values.filterMap id

/-- The paths at which a command can find something: those that its words name, and the places of
configurations. -/
def visible (here home : Path) (environment : Environment) (arguments : List String) : List Path :=
  let named := arguments ++ environment.map Prod.snd
  here :: environment.configDir home :: named.map fun word => here.join ⟨word⟩

/-! ## Running -/

/-- Prints the lines. -/
def print (output complaints : List String) : IO Unit := do
  output.forM IO.println
  complaints.forM IO.eprintln
  (← IO.getStdout).flush

/-- Prints what has been told since. -/
def printEvents (before after : List Event) : IO Unit := do
  for event in (after.take (after.length - before.length)).reverse do
    let (output, complaints) := CommandLine.eventLines event
    print output complaints

/-- Looks at the files again and again, and has the session take the changes. -/
partial def follow (look : FileTree → IO FileTree) (word : String) (session : Timeline Project) :
    IO Unit := do
  let started ← IO.monoMsNow
  IO.sleep 100
  let tree ← look session.state.tree
  let changes := session.state.tree.changesTo tree
  let seen := { session with
    inbox := session.inbox ++ changes.map WatchInput.change
    state := { session.state with tree } }
  let next := seen.wait ((← IO.monoMsNow) - started)
  store word tree next.state.tree
  printEvents session.session.events next.session.events
  follow look word next

/-- Runs the command that the arguments ask for. -/
def run (arguments : List String) : IO UInt32 := do
  let here : Path := ⟨(← IO.currentDir).toString⟩
  let environment ← environment
  let home : Path := ⟨(← IO.getEnv "HOME").getD ""⟩
  let paths := visible here home environment arguments
  let tree ← load {} here paths
  let word ← fresh
  let setting : Setting := {
    surroundings := { compiler := passthrough, now := ← now, fresh := word }
    tree, here, environment, home
    gzipSize := fun text => Gzip.size text.toUTF8 }
  match CommandLine.run setting arguments with
  | .ended response =>
    store word tree response.tree
    print (response.output.map Printed.text) response.complaints
    return response.code.toUInt32
  | .watching session =>
    printEvents [] session.session.events
    follow (fun known => load known here paths) word session
    return 0

end Rebuild.Main

/-- Runs the program. -/
def main (arguments : List String) : IO UInt32 := Rebuild.Main.run arguments
