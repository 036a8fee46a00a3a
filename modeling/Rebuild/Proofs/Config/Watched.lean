import Rebuild.Config.Load
import Rebuild.Proofs.Glob.Backslash
import Rebuild.Proofs.Watch.Filter

/-!
# The cache is not watched

The pattern that keeps the cache out of what is watched is made of the directory of the cache as it is
written.

* **The pattern.**  `cachePattern?_eq_some_iff`: it is that of the steps below the root, and a
  configuration that was loaded ignores it.
* **What it finds.**  A path in the cache, if the directory is written in normal form
  (`WrittenNormal`) and without a backslash (`WrittenPlain`).  If exactly one of these fails, it finds
  nothing there: `InCache.finds_iff`.
-/

namespace Rebuild

/-! ## The pattern of the cache -/

namespace Config

variable {c : Config}

@[simp] lemma projectRoot_ignoringCache (c : Config) :
    c.ignoringCache.projectRoot = c.projectRoot := by
  rw [ignoringCache]
  cases c.cachePattern? <;> rfl

@[simp] lemma cacheDir_ignoringCache (c : Config) : c.ignoringCache.cacheDir = c.cacheDir := by
  rw [ignoringCache]
  cases c.cachePattern? <;> rfl

lemma mem_withItem (items : List String) (item : String) : item ∈ withItem items item := by
  rw [withItem]
  split_ifs with h
  · exact h
  · simp

/-- The pattern is among what is ignored. -/
lemma mem_ignored_ignoringCache {t : String} (h : c.ignoringCache.cachePattern? = some t) :
    t ∈ c.ignoringCache.ignored := by
  have hpattern : c.cachePattern? = some t := by
    rw [← h, cachePattern?, cachePattern?, projectRoot_ignoringCache, cacheDir_ignoringCache]
  rw [ignoringCache, hpattern]
  exact mem_withItem _ _

lemma toList_literalPattern (text : String) :
    (literalPattern text).toList = text.toList.flatMap Glob.quote := by
  rw [literalPattern, String.toList_ofList]
  rfl

lemma flatMap_join (pieces : List (List Char)) :
    (Text.join ['/'] pieces).flatMap Glob.quote
      = Text.join ['/'] (pieces.map (List.flatMap Glob.quote)) := by
  fun_induction Text.join ['/'] pieces with
  | case1 => rfl
  | case2 piece => rfl
  | case3 piece next rest ih =>
      rw [List.flatMap_append, List.flatMap_append, ih]
      rfl

/-- The pattern of the cache is that of everything in one directory. -/
lemma pattern_eq {steps : List Component} (hroot : .root ∉ steps) :
    "/".intercalate (steps.map componentPattern) ++ "/**"
      = String.ofList (Glob.quoteInside (Path.letters steps)) := by
  have hsteps : (steps.map componentPattern).map String.toList
      = (steps.map fun step => step.text.toList).map (List.flatMap Glob.quote) := by
    rw [List.map_map, List.map_map]
    refine List.map_congr_left fun step hstep => ?_
    have hcomponent : componentPattern step = literalPattern step.text := by
      cases step with
      | root => exact absurd hstep hroot
      | current | parent | name => rfl
    simp [hcomponent, toList_literalPattern]
  rw [← String.toList_inj, String.toList_append, String.toList_intercalate, Text.intercalate_eq_join,
    hsteps, Glob.quoteInside, Path.letters, flatMap_join]
  exact String.toList_ofList.symm

/-- The pattern is there if the directory is below the root as it is written. -/
lemma cachePattern?_eq_some_iff (hroot : c.projectRoot.components ≠ []) {t : String} :
    c.cachePattern? = some t ↔ ∃ below, below ≠ [] ∧
      c.cacheDir.components = c.projectRoot.components ++ below ∧
      t = String.ofList (Glob.quoteInside (Path.letters below)) := by
  have hpattern : ∀ {rel : Path}, c.projectRoot.relativeTo? c.cacheDir = some rel →
      .root ∉ rel.components := by
    intro rel hrel
    exact Path.root_notMem hroot (Path.components_of_relativeTo? hroot hrel)
  constructor
  · intro h
    rw [cachePattern?] at h
    cases hrel : c.projectRoot.relativeTo? c.cacheDir with
    | none => simp [hrel] at h
    | some rel =>
        have hsteps := Path.components_of_relativeTo? hroot hrel
        rw [hrel, Option.map_some] at h
        cases hbelow : rel.components with
        | nil => simp [hbelow] at h
        | cons d below =>
            rw [hbelow] at h hsteps
            refine ⟨d :: below, List.cons_ne_nil _ _, hsteps, ?_⟩
            rw [← pattern_eq (hbelow ▸ hpattern hrel)]
            exact (Option.some.inj h).symm
  · rintro ⟨below, hne, hsteps, rfl⟩
    obtain ⟨rel, hrel, rfl⟩ := Path.exists_relativeTo? hroot hsteps
    rw [cachePattern?, hrel, Option.map_some, ← pattern_eq (hpattern hrel)]
    cases hbelow : rel.components with
    | nil => exact absurd hbelow hne
    | cons d below => rfl

end Config

namespace Layer

@[simp] lemma projectRoot_stack (layers : List Layer) (c : Config) :
    (stack layers c).projectRoot = c.projectRoot := by
  rw [stack]
  induction layers generalizing c with
  | nil => rfl
  | cons l layers ih => exact ih (l.applyTo c)

end Layer

namespace ConfigSources

variable {s : ConfigSources} {tree : FileTree} {c : Config}

/-- A configuration that was loaded ignores the pattern of its cache. -/
lemma load_spec (h : s.load tree = .ok c) :
    c.projectRoot = s.root ∧ ∀ t, c.cachePattern? = some t → t ∈ c.ignored := by
  rw [load, bind_eq_ok_iff] at h
  obtain ⟨layers, -, h⟩ := h
  obtain ⟨-, -, h⟩ := bind_eq_ok_iff.1 h
  cases h
  refine ⟨?_, fun t => Config.mem_ignored_ignoringCache⟩
  rw [Config.projectRoot_ignoringCache, Layer.projectRoot_stack]
  rfl

end ConfigSources

/-! ## What is in the cache -/

namespace Config

variable {c : Config} {p : Path} {below more : List Component} {t : String}

/-- The directory of the cache is written with the steps of its normal form. -/
def WrittenNormal (c : Config) : Prop := c.cacheDir.components = c.cacheDir.normalize.components

/-- As far as it is below the root, the directory of the cache is written without a backslash. -/
def WrittenPlain (c : Config) : Prop :=
  ∀ below, c.cacheDir.components = c.projectRoot.components ++ below →
    ∀ step ∈ below, '\\' ∉ step.text.toList

/-- The path is in normal form and in the directory of the cache, which is below the root; `below` are
the steps to the directory, and `more` those in it. -/
structure InCache (c : Config) (p : Path) (below more : List Component) : Prop where
  absolute : c.projectRoot.isAbsolute = true
  normal : p.normalize = p
  directory : c.cacheDir.normalize.components = c.projectRoot.components ++ below
  path : (c.projectRoot.join p).components = c.projectRoot.components ++ (below ++ more)
  below_ne : below ≠ []
  more_ne : more ≠ []

lemma exists_inCache (hroot : c.projectRoot.isAbsolute = true) (hp : p.normalize = p)
    (hbelow : Path.Below c.projectRoot c.cacheDir.normalize)
    (hinside : Path.Below c.cacheDir.normalize (c.projectRoot.join p)) :
    ∃ below more, c.InCache p below more := by
  obtain ⟨below, hbelowne, hdirectory⟩ := hbelow
  obtain ⟨more, hmorene, hpath⟩ := hinside
  rw [hdirectory, List.append_assoc] at hpath
  exact ⟨below, more, hroot, hp, hdirectory, hpath, hbelowne, hmorene⟩

/-- What a filter for the root sees of a path in the cache. -/
lemma InCache.relative?_eq {f : PathFilter} (h : c.InCache p below more)
    (hf : f.root = c.projectRoot) :
    f.relative? p = some ⟨"/".intercalate ((below ++ more).map Component.text)⟩ := by
  refine PathFilter.relative?_eq ?_ h.normal (by simp [h.below_ne]) ?_
  · rw [hf, h.absolute]
  · rw [hf, h.path]

lemma WrittenNormal.eq_below {written : List Component} (hnormal : c.WrittenNormal)
    (h : c.InCache p below more)
    (hwritten : c.cacheDir.components = c.projectRoot.components ++ written) : written = below := by
  rw [WrittenNormal, h.directory, hwritten] at hnormal
  exact List.append_cancel_left hnormal

/-- What is written are steps to a path in normal form only if they are normal themselves. -/
lemma InCache.writtenNormal {written : List Component} (h : c.InCache p below more)
    (hwritten : c.cacheDir.components = c.projectRoot.components ++ written)
    (hbegins : written <+: below ++ more) : c.WrittenNormal := by
  have hdirectory : Path.NormalForm (c.projectRoot.components ++ below) := by
    rw [← h.directory]
    exact (Path.normal_iff.1 (Path.normalize_normalize c.cacheDir)).1
  have hform : Path.NormalForm c.cacheDir.components := by
    rw [hwritten]
    exact (Path.normalForm_of_join h.absolute h.normal h.below_ne hdirectory h.path).of_isPrefix
      ((List.prefix_append_right_inj _).2 hbegins)
  rw [WrittenNormal, Path.normalize, Path.normalSteps_of_normal hform,
    Path.components_ofComponents hform]

/-- Without a backslash, the pattern finds what is in the cache exactly if the directory is written in
normal form. -/
lemma WrittenPlain.finds_iff (hplain : c.WrittenPlain) (h : c.InCache p below more)
    (ht : c.cachePattern? = some t) :
    Glob.Finds t ⟨"/".intercalate ((below ++ more).map Component.text)⟩ ↔ c.WrittenNormal := by
  have hroot := Path.components_ne_nil h.absolute
  obtain ⟨written, hne, hwritten, rfl⟩ := (cachePattern?_eq_some_iff hroot).1 ht
  have hlegible := Path.legible_of_join h.absolute h.normal h.path
  have hmem : ∀ step ∈ written, step ∈ c.cacheDir.components := by
    intro step hstep
    rw [hwritten]
    exact List.mem_append_right _ hstep
  rw [Glob.finds_iff hne (hplain written hwritten)
    (fun step hstep => Path.noSlash_of_mem (hmem step hstep)) fun step hstep => (hlegible step hstep).2]
  constructor
  · rintro ⟨rest, -, hsame⟩
    refine h.writtenNormal hwritten
      (Path.isPrefix_of_map (fun step hstep d hd htext => ?_) ⟨rest, hsame.symm⟩)
    refine Path.eq_of_text_eq (hmem step hstep) ?_ (hlegible d hd) htext
    rintro rfl
    exact Path.root_notMem hroot hwritten hstep
  · intro hnormal
    obtain rfl := hnormal.eq_below h hwritten
    exact ⟨more.map fun step => step.text.toList, by simpa using h.more_ne, by simp⟩

/-- With a backslash, the pattern of a directory in normal form finds nothing that is in the cache. -/
lemma WrittenNormal.not_finds (hnormal : c.WrittenNormal) (hplain : ¬c.WrittenPlain)
    (h : c.InCache p below more) (ht : c.cachePattern? = some t) :
    ¬Glob.Finds t ⟨"/".intercalate ((below ++ more).map Component.text)⟩ := by
  obtain ⟨written, hne, hwritten, rfl⟩ :=
    (cachePattern?_eq_some_iff (Path.components_ne_nil h.absolute)).1 ht
  obtain rfl := hnormal.eq_below h hwritten
  have hbackslash : '\\' ∈ Path.letters written := by
    simp only [WrittenPlain, not_forall, not_not] at hplain
    obtain ⟨below, hbelow, step, hstep, hmem⟩ := hplain
    obtain rfl := List.append_cancel_left (hwritten.symm.trans hbelow)
    exact Text.mem_join_of_mem hmem (List.mem_map_of_mem hstep)
  have hbegins : Path.letters written
      <+: ("/".intercalate ((written ++ more).map Component.text)).toList := by
    rw [Path.toList_intercalate, Path.letters, Path.letters, List.map_append,
      Text.join_append _ (by simpa using h.more_ne) (by simpa using hne)]
    exact List.prefix_append _ _
  rintro ⟨pattern, hparse, hmatches⟩
  rw [Glob.not_matches_of_backslash hbackslash hparse hbegins] at hmatches
  cases hmatches

/-- The pattern finds what is in the cache unless one of the two fails. -/
lemma InCache.finds_iff (h : c.InCache p below more) (ht : c.cachePattern? = some t)
    (hone : c.WrittenNormal ∨ c.WrittenPlain) :
    Glob.Finds t ⟨"/".intercalate ((below ++ more).map Component.text)⟩
      ↔ c.WrittenNormal ∧ c.WrittenPlain := by
  by_cases hplain : c.WrittenPlain
  · rw [hplain.finds_iff h ht, and_iff_left hplain]
  · exact iff_of_false ((hone.resolve_right hplain).not_finds hplain h ht) fun hboth => hplain hboth.2

/-- Of a directory that is written in normal form there is a pattern. -/
lemma InCache.exists_cachePattern? (h : c.InCache p below more) (hnormal : c.WrittenNormal) :
    ∃ t, c.cachePattern? = some t :=
  ⟨_, (cachePattern?_eq_some_iff (Path.components_ne_nil h.absolute)).2
    ⟨below, h.below_ne, hnormal.trans h.directory, rfl⟩⟩

end Config

/-! ## Watching -/

namespace PathFilter

variable {s : ConfigSources} {tree : FileTree} {c : Config} {p : Path} {patterns ignored : List String}
  {f : PathFilter}

/-- A filter with these texts would accept the path if it did not have the pattern of the cache. -/
def AcceptsOtherwise (c : Config) (f : PathFilter) (patterns ignored : List String) (p : Path) : Prop :=
  ∃ seen, f.relative? p = some seen ∧ (∃ t ∈ patterns, Glob.Finds t seen) ∧
    ∀ t ∈ ignored, c.cachePattern? ≠ some t → ¬Glob.Finds t seen

/-- **What is in the cache is not watched** if the directory of the cache is written in normal form and
without a backslash.  If one of these fails, the pattern of the cache has no effect there.

The hypothesis `hone` leaves out a directory that is written neither way.  No rule of this kind holds of
it: a backslash lets a quoted brace open a group, and of a group `a,b/../..` the pattern takes the `a`
and never meets the `..`.  Such a pattern finds some of the paths in the cache and not others. -/
theorem accepts_in_cache_iff (hload : s.load tree = .ok c) (hroot : s.root.isAbsolute = true)
    (hbelow : Path.Below s.root c.cacheDir.normalize) (hone : c.WrittenNormal ∨ c.WrittenPlain)
    (hignored : c.ignored ⊆ ignored) (hfilter : PathFilter.ofTexts s.root patterns ignored = .ok f)
    (hp : p.normalize = p) (hinside : Path.Below c.cacheDir.normalize (s.root.join p)) :
    f.accepts p = true
      ↔ ¬(c.WrittenNormal ∧ c.WrittenPlain) ∧ AcceptsOtherwise c f patterns ignored p := by
  obtain ⟨hprojectRoot, hpattern⟩ := ConfigSources.load_spec hload
  rw [← hprojectRoot] at hroot hbelow hfilter hinside
  obtain ⟨below, more, hin⟩ := Config.exists_inCache hroot hp hbelow hinside
  rw [accepts_iff hfilter, AcceptsOtherwise, hin.relative?_eq (root_of_ofTexts hfilter)]
  simp only [Option.some.injEq, exists_eq_left']
  constructor
  · rintro ⟨hfound, hnone⟩
    refine ⟨fun hboth => ?_, hfound, fun t ht _ => hnone t ht⟩
    obtain ⟨t, ht⟩ := hin.exists_cachePattern? hboth.1
    exact hnone t (hignored (hpattern t ht)) ((hin.finds_iff ht hone).2 hboth)
  · rintro ⟨hnot, hfound, hothers⟩
    refine ⟨hfound, fun t ht hfinds => ?_⟩
    by_cases hcache : c.cachePattern? = some t
    · exact hnot ((hin.finds_iff hcache hone).1 hfinds)
    · exact hothers t ht hcache hfinds

end PathFilter

namespace CacheOverride

open Glob

/-- A project without files, for which only the directory of the cache is set. -/
def sources (dir : String) : ConfigSources where
  root := ⟨"/project"⟩
  overrides := { cacheDir := some ⟨dir⟩ }

/-- The configuration of such a project, with the pattern of its cache. -/
def config (dir pattern : String) : Config :=
  { Config.defaults ⟨"/project"⟩ none with
    cacheDir := ⟨"/project/" ++ dir⟩
    ignored := (Config.defaults ⟨"/project"⟩ none).ignored ++ [pattern]
    source := .commandLine }

lemma load_sources (dir pattern : String)
    (h : (Layer.stack [{}, (sources dir).overrides.layer] (.defaults ⟨"/project"⟩ none)).ignoringCache
      = config dir pattern) : (sources dir).load {} = .ok (config dir pattern) := by
  have hfile : FileTree.isFile {} ((Path.mk "/project").join ⟨"kiln.toml"⟩) = false := by
    decide +kernel
  have hlayers : (sources dir).layers {} = .ok [{}, (sources dir).overrides.layer] := by
    rw [ConfigSources.layers, show (sources dir).root = ⟨"/project"⟩ from rfl,
      ConfigSources.fileLayer, hfile]
    rfl
  rw [ConfigSources.load, bind_eq_ok_iff]
  refine ⟨_, hlayers, ?_⟩
  rw [show (sources dir).root = ⟨"/project"⟩ from rfl,
    show (sources dir).processors = none from rfl, h]
  rfl

/-- The pattern for everything in directories of this name. -/
def anywhere (name : String) : Pattern := .anyPrefix :: insideOf name.toList

/-- The filter of such a project for all files. -/
def filter (pattern : Pattern) : PathFilter where
  root := ⟨"/project"⟩
  included := [[.anyPrefix, .anyBytes]]
  ignored := [anywhere ".git", anywhere "target", anywhere "node_modules", anywhere ".kiln", pattern]

lemma ofTexts_eq (dir text : String) {pattern : Pattern} (h : parse text = .ok pattern) :
    PathFilter.ofTexts ⟨"/project"⟩ ["**/*"] (config dir text).ignored = .ok (filter pattern) := by
  have hall : parse "**/*" = .ok [.anyPrefix, .anyBytes] := by
    have hchars : "**/*".toList = ['*', '*', '/', '*'] := by decide
    rw [parse, hchars, readFrom]
    show readFrom _ (some '/') ['*'] = _
    unfold readFrom
    show readFrom _ (some '*') [] = _
    unfold readFrom
    rfl
  have hgit : parse "**/.git/**" = .ok (anywhere ".git") :=
    parse_anywhere (by decide) (by decide)
  have htarget : parse "**/target/**" = .ok (anywhere "target") :=
    parse_anywhere (by decide) (by decide)
  have hmodules : parse "**/node_modules/**" = .ok (anywhere "node_modules") :=
    parse_anywhere (by decide) (by decide)
  have hkiln : parse "**/.kiln/**" = .ok (anywhere ".kiln") :=
    parse_anywhere (by decide) (by decide)
  simp only [PathFilter.ofTexts, PathFilter.readPatterns, config, Config.defaults, List.cons_append,
    List.nil_append, List.mapM_cons, List.mapM_nil, hall, hgit, htarget, hmodules, hkiln, h]
  rfl

/-- With the cache in `build/kiln-cache`, its entries are not watched. -/
theorem not_accepts_entries : ∃ f, (sources "build/kiln-cache").load {}
      = .ok (config "build/kiln-cache" "build/kiln-cache/**")
    ∧ PathFilter.ofTexts ⟨"/project"⟩ ["**/*"]
      (config "build/kiln-cache" "build/kiln-cache/**").ignored = .ok f
    ∧ f.accepts ⟨"/project/build/kiln-cache/cache-entries.json"⟩ = false := by
  have hload := load_sources "build/kiln-cache" "build/kiln-cache/**" (by decide +kernel)
  have hparse : parse "build/kiln-cache/**" = .ok (insideOf "build/kiln-cache".toList) :=
    parse_quoteInside (by decide) (by decide)
  have hfilter := ofTexts_eq "build/kiln-cache" _ hparse
  have hnormal : (config "build/kiln-cache" "build/kiln-cache/**").WrittenNormal := by
    rw [Config.WrittenNormal]
    decide +kernel
  have hplain : (config "build/kiln-cache" "build/kiln-cache/**").WrittenPlain := by
    intro below hbelow
    have hsteps : (config "build/kiln-cache" "build/kiln-cache/**").cacheDir.components
        = Path.components ⟨"/project"⟩ ++ [.name "build", .name "kiln-cache"] := by
      decide +kernel
    rw [List.append_cancel_left (hbelow.symm.trans hsteps)]
    decide
  have hiff := PathFilter.accepts_in_cache_iff (p := ⟨"/project/build/kiln-cache/cache-entries.json"⟩) hload
    (by decide) ⟨[.name "build", .name "kiln-cache"], by decide, by decide +kernel⟩ (.inl hnormal)
    (List.Subset.refl _) hfilter (by decide +kernel)
    ⟨[.name "cache-entries.json"], by decide, by decide +kernel⟩
  refine ⟨_, hload, hfilter, ?_⟩
  rw [Bool.eq_false_iff]
  exact fun haccepts => (hiff.1 haccepts).1 ⟨hnormal, hplain⟩

/-- What is to hold of the cache: no filter for the project accepts anything in it. -/
def Unwatched (s : ConfigSources) (tree : FileTree) : Prop :=
  ∀ {c : Config} {patterns ignored : List String} {f : PathFilter} {p : Path},
    s.load tree = .ok c → s.root.isAbsolute = true → s.root.normalize = s.root →
    Path.Below s.root c.cacheDir.normalize → c.ignored ⊆ ignored →
    PathFilter.ofTexts s.root patterns ignored = .ok f →
    p.normalize = p → Path.Below c.cacheDir.normalize (s.root.join p) → f.accepts p = false

/-- It does not hold if the directory is left and entered again, and not if it has a backslash. -/
theorem not_unwatched :
    ¬Unwatched (sources "x/../.cache") {} ∧ ¬Unwatched (sources "a\\b") {} := by
  constructor
  · intro h
    have hparse : parse "x/../.cache/**" = .ok (insideOf "x/../.cache".toList) :=
      parse_quoteInside (by decide) (by decide)
    have haccepts := h (p := ⟨"/project/.cache/cache-entries.json"⟩)
      (load_sources _ "x/../.cache/**" (by decide +kernel)) (by decide) (by decide +kernel)
      ⟨[.name ".cache"], by decide, by decide +kernel⟩ (List.Subset.refl _)
      (ofTexts_eq _ _ hparse) (by decide +kernel)
      ⟨[.name "cache-entries.json"], by decide, by decide +kernel⟩
    revert haccepts
    decide +kernel
  · intro h
    have hparse : parse "a\\b/**" = .ok (insideOf "ab".toList) := by
      have hchars : "a\\b/**".toList = 'a' :: '\\' :: 'b' :: ['/', '*', '*'] := by decide
      rw [parse, hchars, readFrom_plain rfl (by decide) (by decide), readFrom_backslash,
        readFrom_inside rfl]
      rfl
    have haccepts := h (p := ⟨"/project/a\\b/cache-entries.json"⟩)
      (load_sources _ "a\\b/**" (by decide +kernel)) (by decide) (by decide +kernel)
      ⟨[.name "a\\b"], by decide, by decide +kernel⟩ (List.Subset.refl _)
      (ofTexts_eq _ _ hparse) (by decide +kernel)
      ⟨[.name "cache-entries.json"], by decide, by decide +kernel⟩
    revert haccepts
    decide +kernel

end CacheOverride

end Rebuild
