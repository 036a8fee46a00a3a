import Rebuild.Proofs.Cache.Persistence
import Rebuild.Proofs.Files.Failing

/-!
# When a save fails

A save writes the entries and then the graph document.  Each document is replaced at once or not at
all, but nothing ties the two together: if the second write fails, the entries are the new ones, and
the graph and the records are those that were there before.  `load_saveEach_error` says that nothing
else can be found after a failed save, wherever it fails.

* **Writes.**  `Cache.saveEach`: the two writes of a save, which can meet different faults.
* **Documents.**  `Document.readText_iff`: a write changes what is read from its own document only.
* **Directories.**  `load_furnished`: a directory that is made for the documents adds none.
-/

namespace Rebuild

open FileTree

/-! ## Writes -/

/-- What a write depends on beside its document. -/
structure Writing where
  faults : Faults
  fresh : String
  now : Timestamp

namespace Cache

/-- The tree with the entries written. -/
def saveEntries (c : Cache) (w : Writing) (tree : FileTree) : FileTree × Except BuildError Unit :=
  CacheStore.writeDocument w.faults w.fresh w.now tree (c.directory.join entriesFile)
    (CacheStore.renderEntries w.now c.entries)

/-- The tree with the graph document written. -/
def saveGraph (c : Cache) (w : Writing) (tree : FileTree) : FileTree × Except BuildError Unit :=
  CacheStore.writeDocument w.faults w.fresh w.now tree (c.directory.join graphFile)
    (CacheStore.renderGraph w.now c.graphDocument)

/-- The tree with both documents written, each under its own circumstances. -/
def saveEach (c : Cache) (first second : Writing) (tree : FileTree) :
    FileTree × Except BuildError Unit :=
  match c.saveEntries first tree with
  | (tree, .error error) => (tree, .error error)
  | (tree, .ok ()) => c.saveGraph second tree

/-- In a save, both writes meet the same faults. -/
lemma save_eq_saveEach (c : Cache) (faults : Faults) (fresh : String) (now : Timestamp)
    (tree : FileTree) :
    c.save faults fresh now tree = c.saveEach ⟨faults, fresh, now⟩ ⟨faults, fresh, now⟩ tree := rfl

end Cache

/-! ## Documents -/

namespace CacheStore

variable {tree tree' : FileTree} {directory p : Path} {faults : Faults} {fresh text : String}
  {now : Timestamp} {e : BuildError}

lemma load?_congr {α : Type} {names : List String} {content : Json.Record → Option α}
    (h : ∀ text, tree'.readText p = .ok text ↔ tree.readText p = .ok text) :
    load? names content tree' p = load? names content tree p := by
  rw [load?, load?]
  cases hread : tree.readText p with
  | ok text => rw [(h text).2 hread]
  | error cause =>
      cases hread' : tree'.readText p with
      | ok text => cases hread.symm.trans ((h text).1 hread')
      | error cause' => rfl

lemma loadEntries_congr (h : ∀ text, tree'.readText (directory.join entriesFile) = .ok text
    ↔ tree.readText (directory.join entriesFile) = .ok text) :
    loadEntries tree' directory = loadEntries tree directory := by
  rw [loadEntries, load?_congr h, loadEntries]

lemma loadGraph_congr (h : ∀ text, tree'.readText (directory.join graphFile) = .ok text
    ↔ tree.readText (directory.join graphFile) = .ok text) :
    loadGraph tree' directory = loadGraph tree directory := by
  rw [loadGraph, load?_congr h, loadGraph]

lemma beside_of_writeDocument_error (hfresh : '/' ∉ fresh.toList)
    (hwrite : writeDocument faults fresh now tree p text = (tree', .error e)) :
    Beside (IsTemporary fresh) (furnish faults tree p) tree' := by
  rw [writeDocument] at hwrite
  split at hwrite
  · cases hwrite
  · rename_i hatomic
    cases hwrite
    exact writeAtomic_error hfresh hatomic

lemma beside_of_writeDocument (h : tree.Rooted) (hfresh : '/' ∉ fresh.toList)
    (hwrite : writeDocument faults fresh now tree p text = (tree', .ok ())) :
    ∃ g, tree'.locate p = .ok g ∧ Beside (fun names => IsTemporary fresh names ∨ names = g.names)
      (furnish faults tree p) tree' := by
  rw [writeDocument] at hwrite
  split at hwrite
  · rename_i hatomic
    cases hwrite
    exact beside_writeAtomic h hfresh hatomic
  · cases hwrite

end CacheStore

/-- The name of a document of the cache. -/
structure Document (name : Path) : Prop where
  plain : PlainName name.text
  head : name.text.toList.head? ≠ some '.'

lemma document_entriesFile : Document entriesFile := ⟨Cache.plainName_entriesFile, by decide⟩

lemma document_graphFile : Document graphFile := ⟨Cache.plainName_graphFile, by decide⟩

namespace Document

variable {name other directory : Path} {tree tree' : FileTree} {t : Target} {fresh : String}

lemma getLast? (h : Document name) (hlocate : tree.locate (directory.join name) = .ok t) :
    t.names.getLast? = some name.text := by
  rw [names_eq_append (locate_join h.plain hlocate).1, List.getLast?_concat]

/-- What is written beside a document leaves it alone. -/
lemma readText_iff (h : Document name) {P : List String → Prop} (hbeside : Beside P tree tree')
    (hP : ∀ names, P names → names.getLast? ≠ some name.text) (text : String) :
    tree'.readText (directory.join name) = .ok text
      ↔ tree.readText (directory.join name) = .ok text :=
  readText_congr (fun _ => hbeside.find? (fun _ hlocate hmem => hP _ hmem (h.getLast? hlocate)) _) text

/-- No temporary file has the name of a document. -/
lemma ne_temporary (h : Document name) (names : List String) (hnames : IsTemporary fresh names) :
    names.getLast? ≠ some name.text := by
  intro hlast
  exact Cache.ne_temporaryName h.head fresh (Option.some.inj (hlast.symm.trans hnames))

end Document

namespace Cache

section

variable {known : Set ByteArray} {s : Session} {first second : Writing} {tree tree' : FileTree}
  {directory : Path} {e : BuildError}

/-! ## Directories -/

/-- The tree with the directories that the documents need. -/
def furnished (s : Session) (w : Writing) : FileTree :=
  furnish w.faults s.tree (s.cache.directory.join entriesFile)

/-- The directories that are made for the documents add no document, at least if the way to the directory of
the cache does not go back up through directories that were not there. -/
lemma load_furnished (hrooted : s.tree.Rooted) (w : Writing)
    (hdirectory : s.tree.isDirectory s.cache.directory = true
      ∨ ".." ∉ steps s.cache.directory) :
    load (furnished s w) s.cache.directory = load s.tree s.cache.directory := by
  rcases hdirectory with hdirectory | hsteps
  · rw [furnished]
    rw [furnish_eq w.faults hrooted plainName_entriesFile (.inl hdirectory)]
  · have hread : ∀ {name : Path}, Document name → ∀ text,
        (furnished s w).readText (s.cache.directory.join name) = .ok text
          ↔ s.tree.readText (s.cache.directory.join name) = .ok text := by
      intro name hname
      refine readText_congr fun f => (furnished_furnish w.faults s.tree _).find?_file_iff hrooted
        (hrooted.furnish w.faults _) ?_ f
      rw [steps_join hname.plain, List.mem_append, not_or]
      refine ⟨hsteps, fun hmem => ?_⟩
      exact hname.plain.ne_parent (List.mem_singleton.1 hmem).symm
    rw [load, CacheStore.loadEntries_congr (hread document_entriesFile),
      CacheStore.loadGraph_congr (hread document_graphFile), load]

/-! ## Failing -/

/-- What is opened after a save that failed, where `before` is what the directory held. -/
inductive AfterFailure (s : Session) (first : Writing) (before after : Cache) : Prop where
  /-- The first write failed: nothing has changed. -/
  | unchanged {e : BuildError} (hentries : (s.cache.saveEntries first s.tree).2 = .error e)
      (h : after = before) : AfterFailure s first before after
  /-- The second write failed: the entries are the new ones, and all else is as before. -/
  | mixed (hentries : (s.cache.saveEntries first s.tree).2 = .ok ())
      (hnew : ∀ q : Path, Option.Rel CacheEntry.Same s.cache.entries[q]? after.entries[q]?)
      (hrecords : after.records = before.records) (hgraph : after.graph = before.graph) :
      AfterFailure s first before after

/-- The first write failed. -/
lemma afterFailure_of_saveEntries_error (hfresh : '/' ∉ first.fresh.toList)
    (hentries : s.cache.saveEntries first s.tree = (tree', .error e)) :
    AfterFailure s first (load (furnished s first) s.cache.directory)
      (load tree' s.cache.directory) := by
  have hbeside := CacheStore.beside_of_writeDocument_error hfresh hentries
  have hread : ∀ {name : Path}, Document name → ∀ text,
      tree'.readText (s.cache.directory.join name) = .ok text
        ↔ (furnished s first).readText (s.cache.directory.join name) = .ok text :=
    fun hname => hname.readText_iff hbeside hname.ne_temporary
  refine .unchanged (congrArg Prod.snd hentries) ?_
  rw [load, CacheStore.loadEntries_congr (hread document_entriesFile),
    CacheStore.loadGraph_congr (hread document_graphFile), load]

/-- The first write succeeded and the second one failed. -/
lemma afterFailure_of_saveGraph_error (hgood : s.Good known) (hnow : first.now.Reads)
    (hfresh : '/' ∉ first.fresh.toList) (hfresh' : '/' ∉ second.fresh.toList)
    {between : FileTree} (hentries : s.cache.saveEntries first s.tree = (between, .ok ()))
    (hgraph : s.cache.saveGraph second between = (tree', .error e)) :
    AfterFailure s first (load (furnished s first) s.cache.directory)
      (load tree' s.cache.directory) := by
  obtain ⟨htext, _, _, hchanges⟩ := writeDocument_ok hgood.ordinary.rooted hfresh hentries
  obtain ⟨g, hlocate, hfirst⟩ :=
    CacheStore.beside_of_writeDocument hgood.ordinary.rooted hfresh hentries
  -- The directories are there already when the second document is written.
  have hmade : furnish second.faults between (s.cache.directory.join graphFile) = between :=
    furnish_eq second.faults hchanges.rooted plainName_graphFile
      (.inr ⟨_, g, plainName_entriesFile, hlocate⟩)
  have hsecond := CacheStore.beside_of_writeDocument_error hfresh' hgraph
  rw [hmade] at hsecond
  have hread : ∀ text, tree'.readText (s.cache.directory.join entriesFile) = .ok text
      ↔ between.readText (s.cache.directory.join entriesFile) = .ok text :=
    document_entriesFile.readText_iff hsecond document_entriesFile.ne_temporary
  have hkept : CacheStore.loadGraph tree' s.cache.directory
      = CacheStore.loadGraph (furnished s first) s.cache.directory := by
    rw [CacheStore.loadGraph_congr
      (document_graphFile.readText_iff hsecond document_graphFile.ne_temporary)]
    refine CacheStore.loadGraph_congr (document_graphFile.readText_iff hfirst ?_)
    rintro names (htemporary | rfl) hlast
    · exact document_graphFile.ne_temporary _ htemporary hlast
    · exact absurd (Option.some.inj ((document_entriesFile.getLast? hlocate).symm.trans hlast))
        (by decide)
  refine .mixed (congrArg Prod.snd hentries) (fun q => ?_) ?_ ?_
  · exact CacheStore.loadEntries_render ((hread _).2 htext) hnow hgood.storable.entries q
  · show (CacheStore.loadGraph tree' s.cache.directory).records = _
    rw [hkept]
    rfl
  · show Graph.ofNodes (CacheStore.loadGraph tree' s.cache.directory).nodes = _
    rw [hkept]
    rfl

/-- What is opened after a save that failed, at any write. -/
lemma afterFailure (hgood : s.Good known) (hnow : first.now.Reads)
    (hfresh : '/' ∉ first.fresh.toList) (hfresh' : '/' ∉ second.fresh.toList)
    (hsave : s.cache.saveEach first second s.tree = (tree', .error e)) :
    AfterFailure s first (load (furnished s first) s.cache.directory)
      (load tree' s.cache.directory) := by
  rw [saveEach] at hsave
  split at hsave
  · rename_i hentries
    cases hsave
    exact afterFailure_of_saveEntries_error hfresh hentries
  · rename_i hentries
    exact afterFailure_of_saveGraph_error hgood hnow hfresh hfresh' hentries hsave

/-- **After a save that failed**, in any history and wherever it failed, what is opened has the records
and the graph that the directory held before, with the entries that it held before if these could not
be written, and with the new ones otherwise.  The directory held what is found in it once it is made,
which is what was opened before unless a way through `..` has come into being. -/
theorem load_saveEach_error (htree : tree.Ordinary known)
    (hsteps : Session.Steps known (Session.cold tree directory) s) (hnow : first.now.Reads)
    (hfresh : '/' ∉ first.fresh.toList) (hfresh' : '/' ∉ second.fresh.toList)
    (hsave : s.cache.saveEach first second s.tree = (tree', .error e)) :
    AfterFailure s first (load (furnished s first) s.cache.directory)
        (load tree' s.cache.directory)
      ∧ Furnished s.tree (furnished s first)
      ∧ (s.tree.isDirectory s.cache.directory = true ∨ ".." ∉ steps s.cache.directory →
        load (furnished s first) s.cache.directory = load s.tree s.cache.directory) := by
  have hgood := (normal_of_steps htree hsteps).1
  exact ⟨afterFailure hgood hnow hfresh hfresh' hsave, furnished_furnish _ _ _,
    load_furnished hgood.ordinary.rooted first⟩

end

/-! ## Two documents that do not belong together

The first save of a cache fails because the disk is full when the graph document is written. -/

namespace HalfSaved

/-- Nothing fails. -/
def first : Writing := ⟨.none, "0", PutBack.now⟩

/-- The disk is full. -/
def second : Writing where
  faults
    | .writeTemporary => some (.other "No space left on device (os error 28)")
    | _ => none
  fresh := "0"
  now := PutBack.now

/-- The save that fails, of a cache that knows one file. -/
lemma exists_failing : ∃ s tree' e,
    Session.Steps PutBack.known (Session.cold (PutBack.treeWith "1") ⟨"cache"⟩) s
      ∧ s.tree = PutBack.treeWith "1" ∧ s.cache.directory = ⟨"cache"⟩
      ∧ (s.cache.saveEntries first s.tree).2 = .ok ()
      ∧ s.cache.saveEach first second s.tree = (tree', .error e)
      ∧ (∃ entry, s.cache.entries[(⟨"a"⟩ : Path)]? = some entry)
      ∧ ∃ r, s.cache.records[(⟨"a"⟩ : Path)]? = some r := by
  have hanswer : PutBack.first.toOption.map (fun c =>
      ((c.saveEntries first (PutBack.treeWith "1")).2.toOption,
        (c.saveEach first second (PutBack.treeWith "1")).2.toOption,
        c.entries[(⟨"a"⟩ : Path)]?.isSome, c.records[(⟨"a"⟩ : Path)]?.isSome, c.directory))
      = some (some (), none, true, true, ⟨"cache"⟩) := by
    decide +kernel
  cases hfirst : PutBack.first with
  | error e =>
      rw [hfirst] at hanswer
      cases hanswer
  | ok c =>
      rw [hfirst] at hanswer
      obtain ⟨hentries, hanswer⟩ := Prod.mk.inj (Option.some.inj hanswer)
      obtain ⟨hsave, hanswer⟩ := Prod.mk.inj hanswer
      obtain ⟨hentry, hanswer⟩ := Prod.mk.inj hanswer
      obtain ⟨hrecord, hdirectory⟩ := Prod.mk.inj hanswer
      have hnone : ∀ v ∈ (none : Option Json), v.Noted := fun _ hv => nomatch hv
      have hstored : Session.Step PutBack.known
          (Session.cold (PutBack.treeWith "1") ⟨"cache"⟩) _ :=
        .store PutBack.reads_now hnone hfirst
      have hwritten : (c.saveEntries first (PutBack.treeWith "1")).2 = .ok () := by
        cases hresult : (c.saveEntries first (PutBack.treeWith "1")).2 with
        | error e =>
            rw [hresult] at hentries
            cases hentries
        | ok _ => rfl
      rcases hfailed : c.saveEach first second (PutBack.treeWith "1") with ⟨tree', e | _⟩
      · exact ⟨_, tree', e, .single hstored, rfl, hdirectory, hwritten, hfailed,
          Option.isSome_iff_exists.1 hentry, Option.isSome_iff_exists.1 hrecord⟩
      · rw [hfailed] at hsave
        cases hsave

/-- Nothing was in the directory. -/
lemma load_before : (load (PutBack.treeWith "1") ⟨"cache"⟩).entries[(⟨"a"⟩ : Path)]? = none
    ∧ (load (PutBack.treeWith "1") ⟨"cache"⟩).records[(⟨"a"⟩ : Path)]? = none := by
  have hnone : (load (PutBack.treeWith "1") ⟨"cache"⟩).entries[(⟨"a"⟩ : Path)]?.isNone = true
      ∧ (load (PutBack.treeWith "1") ⟨"cache"⟩).records[(⟨"a"⟩ : Path)]?.isNone = true := by
    decide +kernel
  exact hnone.imp Option.isNone_iff_eq_none.1 Option.isNone_iff_eq_none.1

lemma steps_cache : ".." ∉ steps ⟨"cache"⟩ := by decide

lemma reads_first : first.now.Reads := PutBack.reads_now

lemma reads_second : second.now.Reads := PutBack.reads_now

/-- The entries are the new ones, and the records those from before. -/
lemma mixed {s : Session} {after : Cache} (htree : s.tree = PutBack.treeWith "1")
    (hdirectory : s.cache.directory = ⟨"cache"⟩)
    (hentries : (s.cache.saveEntries first s.tree).2 = .ok ())
    (hentry : ∃ entry, s.cache.entries[(⟨"a"⟩ : Path)]? = some entry)
    (hafter : AfterFailure s first (load s.tree s.cache.directory) after) :
    (∃ entry, after.entries[(⟨"a"⟩ : Path)]? = some entry)
      ∧ after.records[(⟨"a"⟩ : Path)]? = none := by
  cases hafter with
  | unchanged hfailed _ => cases hentries.symm.trans hfailed
  | mixed _ hnew hrecords _ =>
      obtain ⟨entry, hentry⟩ := hentry
      have hrel := hnew ⟨"a"⟩
      rw [hentry] at hrel
      refine ⟨?_, ?_⟩
      · cases hfound : after.entries[(⟨"a"⟩ : Path)]? with
        | none =>
            rw [hfound] at hrel
            cases hrel
        | some found => exact ⟨found, rfl⟩
      · rw [hrecords, htree, hdirectory]
        exact load_before.2

end HalfSaved

/-- After the save that failed, there is an entry for a file of which there is no record. -/
theorem load_saveEach_error_half_saved : ∃ s tree' e,
    Session.Steps PutBack.known (Session.cold (PutBack.treeWith "1") ⟨"cache"⟩) s
      ∧ s.cache.saveEach HalfSaved.first HalfSaved.second s.tree = (tree', .error e)
      ∧ (∃ entry, (load tree' s.cache.directory).entries[(⟨"a"⟩ : Path)]? = some entry)
      ∧ (load tree' s.cache.directory).records[(⟨"a"⟩ : Path)]? = none := by
  obtain ⟨s, tree', e, hsteps, htree, hdirectory, hentries, hsave, hentry, -⟩ :=
    HalfSaved.exists_failing
  obtain ⟨hafter, -, hbefore⟩ := load_saveEach_error PutBack.ordinary_one hsteps
    HalfSaved.reads_first (by decide) (by decide) hsave
  rw [hbefore (.inr (hdirectory ▸ HalfSaved.steps_cache))] at hafter
  exact ⟨s, tree', e, hsteps, hsave, HalfSaved.mixed htree hdirectory hentries hentry hafter⟩

/-- A failed save is not all or nothing. -/
theorem not_saveEach_all_or_nothing :
    ¬∀ (known : Set ByteArray) (tree tree' : FileTree) (directory : Path) (s : Session)
      (first second : Writing) (e : BuildError), tree.Ordinary known →
      Session.Steps known (Session.cold tree directory) s → first.now.Reads → second.now.Reads →
      '/' ∉ first.fresh.toList → '/' ∉ second.fresh.toList →
      s.cache.saveEach first second s.tree = (tree', .error e) →
      (load s.tree s.cache.directory).SameTables (load tree' s.cache.directory)
        ∨ s.cache.SameTables (load tree' s.cache.directory) := by
  intro hall
  obtain ⟨s, tree', e, hsteps, htree, hdirectory, hentries, hsave, hentry, ⟨r, hr⟩⟩ :=
    HalfSaved.exists_failing
  have hgood := (normal_of_steps PutBack.ordinary_one hsteps).1
  have hafter := afterFailure hgood HalfSaved.reads_first (by decide) (by decide) hsave
  rw [load_furnished hgood.ordinary.rooted _ (.inr (hdirectory ▸ HalfSaved.steps_cache))] at hafter
  obtain ⟨⟨entry, hnew⟩, hnone⟩ := HalfSaved.mixed htree hdirectory hentries hentry hafter
  rcases hall _ _ _ _ s HalfSaved.first HalfSaved.second e PutBack.ordinary_one hsteps
    HalfSaved.reads_first HalfSaved.reads_second (by decide) (by decide) hsave with hold | hsaved
  · have hrel := hold.entries ⟨"a"⟩
    rw [hnew, htree, hdirectory, HalfSaved.load_before.1] at hrel
    cases hrel
  · have hrecord := hsaved.records ⟨"a"⟩
    rw [hnone, hr] at hrecord
    cases hrecord

end Cache
end Rebuild
