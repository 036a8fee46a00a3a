import Rebuild.Config.Layer
import Rebuild.Files.Tree
import Rebuild.Toml.Reader

/-!
# Loading a configuration

From the lowest to the highest, the layers are the user's file, the file `kiln.toml` of the project,
the environment and the command line.  Every layer has to be in order, also where a higher one
replaces what it gives; the configuration is checked when it is complete.
-/

namespace Rebuild

/-- The file with the settings of the user. -/
inductive UserFile where
  /-- There is none. -/
  | disabled
  /-- It is where the environment says. -/
  | discover
  | file (path : Path)
  deriving DecidableEq, Repr

namespace Environment

/-- The directory for the configurations of a user: `XDG_CONFIG_HOME` or, where that is unset or empty,
`.config` in the home directory. -/
def configDir (env : Environment) (home : Path) : Path :=
  let base := match env.lookup "XDG_CONFIG_HOME" with
    | none | some "" => home.join ⟨".config"⟩
    | some dir => ⟨dir⟩
  base.join ⟨"kiln"⟩

end Environment

/-- What a configuration is loaded from. -/
structure ConfigSources where
  root : Path
  environment : Environment := []
  overrides : Overrides := {}
  user : UserFile := .disabled
  home : Path := ⟨""⟩
  /-- How many processors the machine has, if they can be counted. -/
  processors : Option Nat := none

namespace ConfigSources

/-- The file of the user, wherever it is. -/
def userFile? (s : ConfigSources) : Option Path :=
  match s.user with
  | .disabled => none
  | .discover => some ((s.environment.configDir s.home).join ⟨"config.toml"⟩)
  | .file path => some path

/-- The layer of a file, if there is a file. -/
def fileLayer (tree : FileTree) (path : Path) : Except BuildError (Option Layer) :=
  if !tree.isFile path then .ok none
  else
    match tree.readText path with
    | .error cause => .error (.inContext ("cannot read " ++ path.text) (.ofOs cause))
    | .ok text =>
      match (Toml.parse? text).bind (Layer.ofToml? path) with
      | some layer => .ok (some layer)
      | none => .error (.configuration (.invalidFile path))

/-- An error of a configuration as an error of a build. -/
def lift {α : Type} : Except Misconfiguration α → Except BuildError α
  | .ok x => .ok x
  | .error problem => .error (.configuration problem)

/-- All layers, the lowest first. -/
def layers (s : ConfigSources) (tree : FileTree) : Except BuildError (List Layer) := do
  let user ← match s.userFile? with
    | none => pure none
    | some path => fileLayer tree path
  let project ← fileLayer tree (s.root.join ⟨"kiln.toml"⟩)
  let environment ← lift s.environment.layer
  return user.toList ++ project.toList ++ [environment, s.overrides.layer]

/-- The configuration. -/
def load (s : ConfigSources) (tree : FileTree) : Except BuildError Config := do
  let layers ← s.layers tree
  let config := (Layer.stack layers (.defaults s.root s.processors)).ignoringCache
  lift config.check
  return config

end ConfigSources
end Rebuild
