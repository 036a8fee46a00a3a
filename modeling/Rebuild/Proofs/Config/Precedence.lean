import Mathlib.Algebra.Group.Nat.Defs
import Mathlib.Data.List.TakeWhile
import Mathlib.Tactic.Common
import Rebuild.Proofs.Config.Settings
import Rebuild.Proofs.Config.Watched

/-!
# Which layer counts

A configuration is made of layers that each give some of the settings.  Laid one by one, they make the
same configuration as if every setting were looked up on its own (`ConfigSources.effective`).

* **Looking up.**  `Layer.get_stack`: of a setting that layers replace, the highest layer that gives it
  counts.  `Layer.ignored_stack`: the ignored patterns of all layers remain, from the lowest to the
  highest.
* **Layers in order.**  A number in the environment has to be one (`Environment.Writes`), and a file
  that is there has to be a list of settings (`ConfigSources.Gives`, by `Layer.Tells`).  There are
  layers exactly if that is so, also where a higher layer replaces what is given
  (`layers_eq_ok_iff`).
* **The outcome.**  `ConfigSources.load_exact`: what is loaded, and when nothing is.
-/

namespace Rebuild

/-! ## Numbers in the environment -/

namespace Environment

variable {env : Environment} {text name : String} {n : Nat} {cs digits : List Char}

/-- The text writes a number of 64 bits in digits, between blanks and maybe after a plus. -/
def Writes (text : String) (n : Nat) : Prop :=
  ∃ digits : List Char, digits ≠ [] ∧ (∀ c ∈ digits, c.isDigit = true)
    ∧ (Text.trim text.toList = digits ∨ Text.trim text.toList = '+' :: digits)
    ∧ Json.digitsValue (digits.map fun c => c.toNat - 48) = n ∧ n < 2 ^ 64

/-- A text without a plus at its beginning. -/
def unsigned : List Char → List Char
  | '+' :: cs => cs
  | cs => cs

lemma unsigned_eq_iff (h : ∀ c ∈ digits, c.isDigit = true) :
    unsigned cs = digits ↔ cs = digits ∨ cs = '+' :: digits := by
  rw [unsigned.eq_def]
  split
  · rename_i cs
    have hplus : '+' :: cs ≠ digits := fun heq => absurd (h '+' (heq ▸ List.mem_cons_self)) (by decide)
    simp [hplus]
  · rename_i cs hplus
    rw [or_iff_left (hplus digits)]

/-- The number that digits write up to the end of a text. -/
def wholeNumber? (cs : List Char) : Option Nat :=
  match Json.takeDigits cs with
  | ([], _) => none
  | (ds, []) => if Json.digitsValue ds < UInt64.size then some (Json.digitsValue ds) else none
  | _ => none

lemma natural?_eq (text : String) :
    natural? text = wholeNumber? (unsigned (Text.trim text.toList)) := rfl

lemma wholeNumber?_eq_some_iff : wholeNumber? cs = some n ↔ cs ≠ [] ∧ (∀ c ∈ cs, c.isDigit = true)
    ∧ Json.digitsValue (cs.map fun c => c.toNat - 48) = n ∧ n < 2 ^ 64 := by
  by_cases hall : ∀ c ∈ cs, c.isDigit = true
  · have htake : Json.takeDigits cs = (cs.map fun c => c.toNat - 48, []) := by
      rw [Json.takeDigits, List.takeWhile_eq_self_iff.2 hall, List.dropWhile_eq_nil_iff.2 hall]
    rw [wholeNumber?, htake]
    cases cs with
    | nil => simp
    | cons c cs =>
        have hsize : UInt64.size = 2 ^ 64 := rfl
        simp only [List.map_cons, Option.ite_none_right_eq_some, Option.some.injEq, ne_eq,
          reduceCtorEq, not_false_eq_true, true_and, and_iff_right hall, hsize]
        exact ⟨fun ⟨hlt, heq⟩ => ⟨heq, heq ▸ hlt⟩, fun ⟨heq, hlt⟩ => ⟨heq ▸ hlt, heq⟩⟩
  · refine iff_of_false (fun h => hall ?_) fun h => hall h.2.1
    rw [wholeNumber?] at h
    split at h
    · cases h
    · rename_i htake
      exact List.dropWhile_eq_nil_iff.1 (congrArg Prod.snd htake)
    · cases h

/-- What is read of a variable is the number that its text writes. -/
lemma natural?_eq_some_iff : natural? text = some n ↔ Writes text n := by
  rw [natural?_eq, wholeNumber?_eq_some_iff, Writes]
  constructor
  · rintro ⟨hne, hall, hvalue⟩
    exact ⟨_, hne, hall, (unsigned_eq_iff hall).1 rfl, hvalue⟩
  · rintro ⟨digits, hne, hall, htrim, hvalue⟩
    rw [(unsigned_eq_iff hall).2 htrim]
    exact ⟨hne, hall, hvalue⟩

/-- A variable for a number is set, but to no number. -/
def Garbled (env : Environment) : Prop :=
  ∃ name ∈ ["KILN_WORKERS", "KILN_QUEUE_CAPACITY", "KILN_DEBOUNCE_MS"],
    ∃ value, env.lookup name = some value ∧ ∀ n, ¬Writes value n

/-- The number in a variable. -/
def number? (env : Environment) (name : String) : Option Nat := (env.lookup name).bind natural?

lemma number_eq_ok_iff {value : Option Nat} : env.number name = .ok value ↔
    (∀ text, env.lookup name = some text → ∃ n, Writes text n) ∧ value = env.number? name := by
  rw [number, number?]
  cases env.lookup name with
  | none => simp [eq_comm]
  | some text =>
      simp only [Option.some.injEq, forall_eq', ← natural?_eq_some_iff, Option.bind_some]
      cases natural? text with
      | none => simp
      | some n => simp [eq_comm]

/-- The variables that are set, the one that counts most first. -/
def given (env : Environment) : List String :=
  ["KILN_DEBOUNCE_MS", "KILN_QUEUE_CAPACITY", "KILN_WORKERS", "KILN_CACHE_DIR"].filter
    fun name => (env.lookup name).isSome

/-- What the variables give if every number is one. -/
def told (env : Environment) : Layer where
  cacheDir := (env.lookup "KILN_CACHE_DIR").map Path.mk
  workers := env.number? "KILN_WORKERS"
  queueCapacity := env.number? "KILN_QUEUE_CAPACITY"
  debounceMs := env.number? "KILN_DEBOUNCE_MS"
  source := env.given.head?.map .environment

lemma layer_eq_ok_iff {l : Layer} : env.layer = .ok l ↔ ¬env.Garbled ∧ l = env.told := by
  have hgarbled : ¬env.Garbled ↔
      ∀ name ∈ ["KILN_WORKERS", "KILN_QUEUE_CAPACITY", "KILN_DEBOUNCE_MS"],
        ∀ text, env.lookup name = some text → ∃ n, Writes text n := by
    simp [Garbled]
  have htold : env.told = {
      cacheDir := (env.lookup "KILN_CACHE_DIR").map Path.mk
      workers := env.number? "KILN_WORKERS"
      queueCapacity := env.number? "KILN_QUEUE_CAPACITY"
      debounceMs := env.number? "KILN_DEBOUNCE_MS"
      source := (["KILN_DEBOUNCE_MS", "KILN_QUEUE_CAPACITY", "KILN_WORKERS", "KILN_CACHE_DIR"].find?
        fun name => (env.lookup name).isSome).map .environment } := by
    rw [told, given, List.head?_filter]
  rw [hgarbled, htold]
  simp only [layer, bind_eq_ok_iff, number_eq_ok_iff, List.forall_mem_cons]
  constructor
  · rintro ⟨workers, ⟨hworkers, rfl⟩, queueCapacity, ⟨hqueue, rfl⟩, debounceMs, ⟨hdebounce, rfl⟩, h⟩
    cases h
    exact ⟨⟨hworkers, hqueue, hdebounce, by simp⟩, rfl⟩
  · rintro ⟨⟨hworkers, hqueue, hdebounce, -⟩, rfl⟩
    exact ⟨_, ⟨hworkers, rfl⟩, _, ⟨hqueue, rfl⟩, _, ⟨hdebounce, rfl⟩, rfl⟩

end Environment

/-! ## Layers over each other -/

attribute [ext] Config

namespace Layer

variable {α : Type}

/-- Of the layers that give a setting, the highest counts.  A directory is given from the root on, which
is the same in all configurations that come up. -/
lemma get_stack {root : Path} {get : Config → α} {given? : Layer → Option α}
    (h : ∀ (l : Layer) (c : Config), c.projectRoot = root →
      get (l.applyTo c) = (given? l).getD (get c))
    (layers : List Layer) {c : Config} (hroot : c.projectRoot = root) :
    get (stack layers c) = (layers.reverse.findSome? given?).getD (get c) := by
  -- the lowest layer is laid first, so its configuration is what the others fall back on
  induction layers generalizing c with
  | nil => rfl
  | cons l layers ih =>
      have hstep : get (stack (l :: layers) c)
          = (layers.reverse.findSome? given?).getD (get (l.applyTo c)) := ih (c := l.applyTo c) hroot
      rw [hstep, h l c hroot, List.reverse_cons, List.findSome?_append, List.findSome?_singleton]
      cases layers.reverse.findSome? given? <;> rfl

lemma ignored_stack (layers : List Layer) (c : Config) :
    (stack layers c).ignored = c.ignored ++ layers.flatMap Layer.ignored := by
  induction layers generalizing c with
  | nil => simp [stack]
  | cons l layers ih =>
      have hstep : (stack (l :: layers) c).ignored
          = (l.applyTo c).ignored ++ layers.flatMap Layer.ignored := ih (l.applyTo c)
      rw [hstep, applyTo, List.flatMap_cons, List.append_assoc]

end Layer

/-! ## Files -/

namespace ConfigSources

variable {s : ConfigSources} {tree : FileTree} {path : Path} {layer user project : Option Layer}
  {c : Config}

/-- What there is in place of a configuration file: nothing, or a file whose members say what a layer
gives. -/
def Gives (tree : FileTree) (path : Path) : Option Layer → Prop
  | none => tree.isFile path = false
  | some l => tree.isFile path = true ∧ ∃ text members, tree.readText path = .ok text
    ∧ Toml.parse? text = some members ∧ Layer.Tells path members l

/-- There is a configuration file that cannot be read, or has a member that is no setting or not of its
kind. -/
def Illegible (tree : FileTree) (path : Path) : Prop :=
  tree.isFile path = true ∧ ∀ text, tree.readText path = .ok text →
    ∀ members, Toml.parse? text = some members → ¬Toml.Fits Layer.kinds members

lemma fileLayer_eq_ok_iff : fileLayer tree path = .ok layer ↔ Gives tree path layer := by
  rw [fileLayer]
  cases hfile : tree.isFile path with
  | false => cases layer <;> simp [Gives, hfile]
  | true =>
      cases hread : tree.readText path with
      | error cause => cases layer <;> simp [Gives, hfile, hread]
      | ok text =>
          simp only [Bool.not_true, Bool.false_eq_true, if_false]
          cases hlayer : (Toml.parse? text).bind (Layer.ofToml? path) with
          | none =>
              cases layer with
              | none => simp [Gives, hfile]
              | some l =>
                  simp only [reduceCtorEq, false_iff]
                  rintro ⟨-, text', members, htext, hmembers, hl⟩
                  cases hread.symm.trans htext
                  rw [hmembers, Option.bind_some, Layer.ofToml?_eq_some_iff.2 hl] at hlayer
                  cases hlayer
          | some l =>
              obtain ⟨members, hmembers, hl⟩ := Option.bind_eq_some_iff.1 hlayer
              cases layer with
              | none => simp [Gives, hfile]
              | some l' => simp [Gives, hfile, hread, hmembers, ← Layer.ofToml?_eq_some_iff, hl]

/-- A file is illegible if it is neither absent nor the file of a layer. -/
lemma illegible_iff : Illegible tree path ↔ ∀ layer, ¬Gives tree path layer := by
  constructor
  · rintro ⟨hfile, hnone⟩ layer hgives
    cases layer with
    | none => exact absurd (hfile.symm.trans hgives) (by simp)
    | some l =>
        obtain ⟨-, text, members, htext, hmembers, hl⟩ := hgives
        exact hnone text htext members hmembers (Layer.exists_tells_iff.1 ⟨l, hl⟩)
  · intro h
    have hfile : tree.isFile path = true := by simpa [Gives] using h none
    refine ⟨hfile, fun text htext members hmembers hfits => ?_⟩
    obtain ⟨l, hl⟩ := Layer.exists_tells_iff.2 hfits
    exact h (some l) ⟨hfile, text, members, htext, hmembers, hl⟩

lemma lift_eq_ok_iff {α : Type} {x : Except Misconfiguration α} {y : α} :
    lift x = .ok y ↔ x = .ok y := by
  cases x <;> simp [lift]

/-- What the files give: the user's, if one is asked for, and that of the project. -/
structure FilesGive (s : ConfigSources) (tree : FileTree) (user project : Option Layer) : Prop where
  user : match s.userFile? with
    | none => user = none
    | some path => Gives tree path user
  project : Gives tree (s.root.join ⟨"kiln.toml"⟩) project

/-- One of the files is illegible. -/
def HasIllegible (s : ConfigSources) (tree : FileTree) : Prop :=
  (∃ path, s.userFile? = some path ∧ Illegible tree path)
    ∨ Illegible tree (s.root.join ⟨"kiln.toml"⟩)

lemma FilesGive.unique {user' project' : Option Layer} (h : s.FilesGive tree user project)
    (h' : s.FilesGive tree user' project') : user = user' ∧ project = project' := by
  have hone : ∀ {path : Path} {l l' : Option Layer}, Gives tree path l → Gives tree path l' → l = l' :=
    fun hl hl' => Except.ok.inj ((fileLayer_eq_ok_iff.2 hl).symm.trans (fileLayer_eq_ok_iff.2 hl'))
  refine ⟨?_, hone h.project h'.project⟩
  have huser := h.user
  have huser' := h'.user
  cases hpath : s.userFile? with
  | none =>
      rw [hpath] at huser huser'
      exact huser.trans huser'.symm
  | some path =>
      rw [hpath] at huser huser'
      exact hone huser huser'

lemma exists_filesGive_iff : (∃ user project, s.FilesGive tree user project) ↔ ¬s.HasIllegible tree := by
  simp only [HasIllegible, illegible_iff, not_or, not_exists, not_and, not_forall, not_not]
  constructor
  · rintro ⟨user, project, huser, hproject⟩
    refine ⟨fun path hpath => ?_, project, hproject⟩
    rw [hpath] at huser
    exact ⟨user, huser⟩
  · rintro ⟨huser, project, hproject⟩
    cases hpath : s.userFile? with
    | none => exact ⟨none, project, by rw [hpath], hproject⟩
    | some path =>
        obtain ⟨user, hgives⟩ := huser path hpath
        exact ⟨user, project, by rwa [hpath], hproject⟩

/-- The layers over that of the user. -/
lemma layersOver_eq_ok_iff {user : Option Layer} {layers : List Layer} :
    (do
      let project ← fileLayer tree (s.root.join ⟨"kiln.toml"⟩)
      let environment ← lift s.environment.layer
      return user.toList ++ project.toList ++ [environment, s.overrides.layer]) = .ok layers ↔
    ∃ project, Gives tree (s.root.join ⟨"kiln.toml"⟩) project ∧ ¬s.environment.Garbled
      ∧ layers = user.toList ++ project.toList ++ [s.environment.told, s.overrides.layer] := by
  simp only [bind_eq_ok_iff, fileLayer_eq_ok_iff, lift_eq_ok_iff, Environment.layer_eq_ok_iff]
  constructor
  · rintro ⟨project, hproject, -, ⟨hnumbers, rfl⟩, h⟩
    exact ⟨project, hproject, hnumbers, (Except.ok.inj h).symm⟩
  · rintro ⟨project, hproject, hnumbers, rfl⟩
    exact ⟨project, hproject, _, ⟨hnumbers, rfl⟩, rfl⟩

/-- The layers are those of the files, the environment and the command line, if all are in order. -/
lemma layers_eq_ok_iff {layers : List Layer} : s.layers tree = .ok layers ↔ ∃ user project,
    s.FilesGive tree user project ∧ ¬s.environment.Garbled
      ∧ layers = user.toList ++ project.toList ++ [s.environment.told, s.overrides.layer] := by
  have hgives : ∀ user project, s.FilesGive tree user project ↔ (match s.userFile? with
      | none => user = none
      | some path => Gives tree path user) ∧ Gives tree (s.root.join ⟨"kiln.toml"⟩) project :=
    fun user project => ⟨fun h => ⟨h.user, h.project⟩, fun h => ⟨h.1, h.2⟩⟩
  simp only [ConfigSources.layers, hgives]
  cases s.userFile? with
  | none =>
      refine layersOver_eq_ok_iff.trans ⟨fun ⟨project, h⟩ => ⟨none, project, ⟨rfl, h.1⟩, h.2⟩, ?_⟩
      rintro ⟨-, project, ⟨rfl, hproject⟩, h⟩
      exact ⟨project, hproject, h⟩
  | some path =>
      refine bind_eq_ok_iff.trans (exists_congr fun user => ?_)
      rw [fileLayer_eq_ok_iff]
      refine (and_congr_right fun _ => layersOver_eq_ok_iff).trans ?_
      simp only [and_assoc, exists_and_left]

/-! ## The configuration -/

/-- What the highest of the command line, the environment, the project's file and the user's gives, if
one of them gives anything. -/
def highest {α : Type} (command environment project user : Option α) (default : α) : α :=
  (command.or (environment.or (project.or user))).getD default

lemma map_highest {α β : Type} (f : α → β) (command environment project user : Option α) (d : α) :
    f (highest command environment project user d)
      = highest (command.map f) (environment.map f) (project.map f) (user.map f) (f d) := by
  cases command <;> cases environment <;> cases project <;> cases user <;> rfl

/-- The directory of the cache; a relative one is in the root. -/
def highestCacheDir (s : ConfigSources) (user project : Option Layer) : Path :=
  let directory := highest s.overrides.cacheDir ((s.environment.lookup "KILN_CACHE_DIR").map Path.mk)
    (project.bind Layer.cacheDir) (user.bind Layer.cacheDir) ⟨".kiln/cache"⟩
  if directory.isAbsolute then directory else s.root.join directory

/-- What is ignored by default and what the layers add, from the lowest to the highest. -/
def allIgnored (s : ConfigSources) (user project : Option Layer) : List String :=
  ["**/.git/**", "**/target/**", "**/node_modules/**", "**/.kiln/**"] ++ user.elim [] Layer.ignored
    ++ project.elim [] Layer.ignored ++ s.overrides.ignored

/-- The pattern for all that is in a directory, if that is below the root. -/
def patternsBelow (root directory : Path) : List String :=
  if root.components <+: directory.components ∧ directory.components ≠ root.components then
    ["/".intercalate ((directory.components.drop root.components.length).map Config.componentPattern)
      ++ "/**"]
  else []

/-- One worker for each processor but one, and one where there are fewer than two or nobody knows. -/
def workersFor : Option Nat → Nat
  | some (n + 2) => n + 1
  | _ => 1

lemma defaultWorkers_eq (processors : Option Nat) :
    Config.defaultWorkers processors = workersFor processors := by
  rcases processors with _ | _ | _ | n <;> simp [Config.defaultWorkers, workersFor]

/-- The configuration that the layers make where the files give these. -/
def effective (s : ConfigSources) (user project : Option Layer) : Config where
  projectRoot := s.root
  cacheDir := s.highestCacheDir user project
  workers := highest s.overrides.workers (s.environment.number? "KILN_WORKERS")
    (project.bind Layer.workers) (user.bind Layer.workers) (workersFor s.processors)
  queueCapacity := highest s.overrides.queueCapacity (s.environment.number? "KILN_QUEUE_CAPACITY")
    (project.bind Layer.queueCapacity) (user.bind Layer.queueCapacity) 1000
  debounceMs := highest s.overrides.debounceMs (s.environment.number? "KILN_DEBOUNCE_MS")
    (project.bind Layer.debounceMs) (user.bind Layer.debounceMs) 300
  concurrency := highest none none (project.bind Layer.concurrency) (user.bind Layer.concurrency)
    (2 * workersFor s.processors)
  patterns := highest (if s.overrides.patterns = [] then none else some s.overrides.patterns) none
    (project.bind Layer.patterns) (user.bind Layer.patterns) ["**/*"]
  ignored := s.allIgnored user project
    ++ (patternsBelow s.root (s.highestCacheDir user project)).filter (· ∉ s.allIgnored user project)
  source := highest (if s.overrides = {} then none else some .commandLine)
    (s.environment.given.head?.map .environment)
    (project.map fun _ => .file (s.root.join ⟨"kiln.toml"⟩))
    (user.bind fun _ => s.userFile?.map .file) .default

lemma highestCacheDir_eq : s.highestCacheDir user project
    = s.root.join (highest s.overrides.cacheDir
        ((s.environment.lookup "KILN_CACHE_DIR").map Path.mk)
        (project.bind Layer.cacheDir) (user.bind Layer.cacheDir) ⟨".kiln/cache"⟩) := by
  rw [highestCacheDir]
  split_ifs with h
  · rw [Path.join, if_pos h]
  · rfl

/-- Of the layers over the default, the highest counts. -/
lemma get_layers {α : Type} {root : Path} {processors : Option Nat} (get : Config → α)
    (given? : Layer → Option α)
    (h : ∀ (l : Layer) (c : Config), c.projectRoot = root →
      get (l.applyTo c) = (given? l).getD (get c)) (environment command : Layer) :
    get (Layer.stack (user.toList ++ project.toList ++ [environment, command])
        (.defaults root processors))
      = highest (given? command) (given? environment) (project.bind given?) (user.bind given?)
          (get (.defaults root processors)) := by
  rw [Layer.get_stack h _ rfl, highest]
  congr 1
  cases hcommand : given? command with
  | some x => simp [hcommand]
  | none =>
      cases henvironment : given? environment with
      | some x => simp [hcommand, henvironment]
      | none =>
          cases project with
          | none => cases user <;> simp [hcommand, henvironment]
          | some l => cases hproject : given? l <;> cases user <;> simp [hcommand, henvironment, hproject]

/-- The source of a layer that was read from a file. -/
lemma Gives.bind_source (h : Gives tree path layer) :
    layer.bind Layer.source = layer.map fun _ => .file path := by
  cases layer with
  | none => rfl
  | some l =>
      obtain ⟨-, _, _, -, -, hl⟩ := h
      exact hl.source

lemma FilesGive.bind_source_user (h : s.FilesGive tree user project) :
    user.bind Layer.source = user.bind fun _ => s.userFile?.map .file := by
  have huser := h.user
  cases hpath : s.userFile? with
  | none =>
      rw [hpath] at huser
      rw [huser]
      rfl
  | some path =>
      rw [hpath] at huser
      rw [huser.bind_source]
      cases user <;> rfl

lemma source_layer (o : Overrides) :
    o.layer.source = if o = {} then none else some .commandLine := by
  obtain ⟨cacheDir, workers, queueCapacity, debounceMs, patterns, ignored⟩ := o
  cases cacheDir <;> cases workers <;> cases queueCapacity <;> cases debounceMs <;> cases patterns <;>
    cases ignored <;> rfl

/-- The layers over each other, before the cache is ignored. -/
lemma stack_eq (h : s.FilesGive tree user project) :
    Layer.stack (user.toList ++ project.toList ++ [s.environment.told, s.overrides.layer])
      (.defaults s.root s.processors)
        = { s.effective user project with ignored := s.allIgnored user project } := by
  ext1
  case projectRoot => exact Layer.projectRoot_stack _ _
  case cacheDir =>
    have hjoin : ∀ (l : Layer) (c : Config), c.projectRoot = s.root →
        (l.applyTo c).cacheDir = (l.cacheDir.map s.root.join).getD c.cacheDir :=
      fun l c hroot => hroot ▸ rfl
    refine (get_layers Config.cacheDir _ hjoin _ _).trans (Eq.symm ?_)
    refine highestCacheDir_eq.trans ((map_highest s.root.join _ _ _ _ _).trans ?_)
    rw [Option.map_bind, Option.map_bind]
    rfl
  case workers =>
    refine (get_layers _ Layer.workers (fun _ _ _ => rfl) _ _).trans ?_
    rw [Config.defaults, defaultWorkers_eq]
    rfl
  case queueCapacity => exact get_layers _ Layer.queueCapacity (fun _ _ _ => rfl) _ _
  case debounceMs => exact get_layers _ Layer.debounceMs (fun _ _ _ => rfl) _ _
  case concurrency =>
    refine (get_layers _ Layer.concurrency (fun _ _ _ => rfl) _ _).trans ?_
    rw [Config.defaults, defaultWorkers_eq, Nat.mul_comm]
    rfl
  case patterns => exact get_layers _ Layer.patterns (fun _ _ _ => rfl) _ _
  case ignored =>
    rw [Layer.ignored_stack]
    cases user <;> cases project <;>
      simp [allIgnored, Config.defaults, Environment.told, Overrides.layer]
  case source =>
    refine (get_layers _ Layer.source (fun _ _ _ => rfl) _ _).trans ?_
    rw [h.project.bind_source, h.bind_source_user, source_layer]
    rfl

lemma toList_cachePattern? (c : Config) :
    c.cachePattern?.toList = patternsBelow c.projectRoot c.cacheDir := by
  rw [Config.cachePattern?, Path.map_components_relativeTo?, patternsBelow]
  by_cases hbelow : c.projectRoot.components <+: c.cacheDir.components
  · obtain ⟨below, hbelow⟩ := hbelow
    rw [← hbelow, List.drop_left]
    cases below <;> simp
  · simp [hbelow]

/-- What is ignored in the end. -/
lemma ignoringCache_eq (c : Config) : c.ignoringCache = { c with
    ignored := c.ignored
      ++ (patternsBelow c.projectRoot c.cacheDir).filter (· ∉ c.ignored) } := by
  rw [← toList_cachePattern?, Config.ignoringCache]
  cases c.cachePattern? with
  | none => simp
  | some pattern => by_cases hmem : pattern ∈ c.ignored <;> simp [Config.withItem, hmem]

/-- A configuration that nothing can be built with. -/
def Lacking (c : Config) : Prop :=
  c.workers = 0 ∨ c.queueCapacity = 0 ∨ c.concurrency = 0 ∨ c.patterns = []

lemma check_eq_ok_iff : c.check = .ok () ↔ ¬Lacking c := by
  rw [Config.check, Lacking]
  split_ifs <;> simp [*]

lemma load_eq_ok_iff : s.load tree = .ok c ↔ ∃ user project, s.FilesGive tree user project
    ∧ ¬s.environment.Garbled ∧ ¬Lacking (s.effective user project) ∧ c = s.effective user project := by
  simp only [load, bind_eq_ok_iff, layers_eq_ok_iff, lift_eq_ok_iff]
  constructor
  · rintro ⟨_, ⟨user, project, hfiles, hnumbers, rfl⟩, _, hcheck, h⟩
    have heffective : s.effective user project = c := by
      rw [← Except.ok.inj h, stack_eq hfiles, ignoringCache_eq]
      rfl
    rw [Except.ok.inj h, check_eq_ok_iff] at hcheck
    exact ⟨user, project, hfiles, hnumbers, heffective ▸ hcheck, heffective.symm⟩
  · rintro ⟨user, project, hfiles, hnumbers, hcheck, rfl⟩
    have heffective : (Layer.stack (user.toList ++ project.toList
        ++ [s.environment.told, s.overrides.layer]) (.defaults s.root s.processors)).ignoringCache
          = s.effective user project := by
      rw [stack_eq hfiles, ignoringCache_eq]
      rfl
    refine ⟨_, ⟨user, project, hfiles, hnumbers, rfl⟩, (), ?_, ?_⟩
    · rw [heffective, check_eq_ok_iff]
      exact hcheck
    · rw [heffective]
      rfl

/-- **A configuration is that of the highest layers.**  Loading gives what the files, the environment
and the command line make by their ranks.  It fails exactly if a file is illegible, a variable for a
number is set to something else, or the outcome lacks what a build needs. -/
theorem load_exact (s : ConfigSources) (tree : FileTree) :
    (∀ c, s.load tree = .ok c ↔ ∃ user project, s.FilesGive tree user project
      ∧ ¬s.environment.Garbled ∧ ¬Lacking (s.effective user project)
      ∧ c = s.effective user project)
    ∧ ((∃ e, s.load tree = .error e) ↔ s.HasIllegible tree ∨ s.environment.Garbled
      ∨ ∃ user project, s.FilesGive tree user project ∧ Lacking (s.effective user project)) := by
  refine ⟨fun c => load_eq_ok_iff, ?_⟩
  have herror : (∃ e, s.load tree = .error e) ↔ ¬∃ c, s.load tree = .ok c := by
    cases s.load tree <;> simp
  rw [herror, ← not_iff_not, not_not, not_or, not_or, ← exists_filesGive_iff]
  simp only [load_eq_ok_iff]
  constructor
  · rintro ⟨-, user, project, hfiles, hnumbers, hcheck, rfl⟩
    refine ⟨⟨user, project, hfiles⟩, hnumbers, ?_⟩
    rintro ⟨user', project', hfiles', hlacking⟩
    obtain ⟨rfl, rfl⟩ := hfiles.unique hfiles'
    exact hcheck hlacking
  · rintro ⟨⟨user, project, hfiles⟩, hnumbers, hlacking⟩
    exact ⟨_, user, project, hfiles, hnumbers, fun h => hlacking ⟨user, project, hfiles, h⟩, rfl⟩

/-! ## Two files -/

namespace TwoFiles

/-- The file of the user. -/
def userText : String := "workers = 5\ndebounce_ms = 20\n"

/-- The file of the project, for which the user's debounce time does not count. -/
def projectText : String := "debounce_ms = 40\n[watch]\nignored = [\"out/**\"]\n"

/-- A file of the project with a name that is no setting. -/
def misspelt : String := "wrokers = 3\n"

/-- Two files and a variable, on a machine with eight processors. -/
def sources : ConfigSources where
  root := ⟨"/app"⟩
  environment := [("KILN_QUEUE_CAPACITY", " +12 ")]
  user := .file ⟨"/user.toml"⟩
  processors := some 8

/-- The user's file, and this text as the file of the project. -/
def files (project : String) : FileTree :=
  ((({} : FileTree).set ["app"] .directory).set ["app", "kiln.toml"] (.file ⟨project.toUTF8, none⟩)).set
    ["user.toml"] (.file ⟨userText.toUTF8, none⟩)

/-- The layer of the user's file. -/
def userLayer : Layer where
  workers := some 5
  debounceMs := some 20
  source := some (.file ⟨"/user.toml"⟩)

/-- The layer of the project's file. -/
def projectLayer : Layer where
  debounceMs := some 40
  ignored := ["out/**"]
  source := some (.file ⟨"/app/kiln.toml"⟩)

lemma join_root : sources.root.join ⟨"kiln.toml"⟩ = ⟨"/app/kiln.toml"⟩ := by decide +kernel

lemma gives_user : Gives (files projectText) ⟨"/user.toml"⟩ (some userLayer) :=
  fileLayer_eq_ok_iff.1 (by decide +kernel)

lemma gives_project : Gives (files projectText) ⟨"/app/kiln.toml"⟩ (some projectLayer) :=
  fileLayer_eq_ok_iff.1 (by decide +kernel)

lemma illegible_misspelt : Illegible (files misspelt) ⟨"/app/kiln.toml"⟩ := by
  have hlayer : fileLayer (files misspelt) ⟨"/app/kiln.toml"⟩
      = .error (.configuration (.invalidFile ⟨"/app/kiln.toml"⟩)) := by decide +kernel
  refine illegible_iff.2 fun layer hgives => ?_
  cases hlayer.symm.trans (fileLayer_eq_ok_iff.2 hgives)

lemma not_garbled : ¬sources.environment.Garbled := by
  have hlayer : sources.environment.layer
      = .ok { queueCapacity := some 12, source := some (.environment "KILN_QUEUE_CAPACITY") } := by
    decide +kernel
  exact (Environment.layer_eq_ok_iff.1 hlayer).1

end TwoFiles

/-- Every layer has a part in the configuration of the two files, and with the misspelt name there is
none. -/
theorem load_exact_two_files :
    (∃ c, TwoFiles.sources.load (TwoFiles.files TwoFiles.projectText) = .ok c
      ∧ c.workers = 5 ∧ c.queueCapacity = 12 ∧ c.debounceMs = 40 ∧ c.concurrency = 14
      ∧ c.ignored = ["**/.git/**", "**/target/**", "**/node_modules/**", "**/.kiln/**", "out/**",
        ".kiln/cache/**"]
      ∧ c.source = .environment "KILN_QUEUE_CAPACITY")
    ∧ ∃ e, TwoFiles.sources.load (TwoFiles.files TwoFiles.misspelt) = .error e := by
  constructor
  · have hfiles : TwoFiles.sources.FilesGive (TwoFiles.files TwoFiles.projectText)
        (some TwoFiles.userLayer) (some TwoFiles.projectLayer) :=
      ⟨TwoFiles.gives_user, TwoFiles.join_root ▸ TwoFiles.gives_project⟩
    have hlacks : ¬Lacking (TwoFiles.sources.effective (some TwoFiles.userLayer)
        (some TwoFiles.projectLayer)) := by
      unfold Lacking
      decide +kernel
    refine ⟨_, ((load_exact _ _).1 _).2 ⟨_, _, hfiles, TwoFiles.not_garbled, hlacks, rfl⟩, ?_⟩
    decide +kernel
  · refine ((load_exact _ _).2).2 (.inl (.inr ?_))
    exact TwoFiles.join_root ▸ TwoFiles.illegible_misspelt

end ConfigSources
end Rebuild
