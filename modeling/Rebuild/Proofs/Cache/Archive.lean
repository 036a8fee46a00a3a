import Rebuild.Proofs.Cache.History
import Rebuild.Proofs.Cache.Opening

/-!
# Two checks of freshness

`Cache.get` goes by the entry of a file and by records; `Cache.needsRecompilation` goes by the record of
the file, and looks at the files that it needs as well.  That they agree (`checks_agree`) rests on what
holds of a cache after anything that can happen to it.

* **Histories.**  An `Archive` is a cache with the files around it and with the documents of every save
  that succeeded.  A step is an operation, with any notes, or an edit that may change all files, the
  documents included.  What is opened are the documents of one save, both accepted; or no entries are
  accepted, as in a directory without documents, and the graph is one that was saved, if it is accepted.
* **Invariant.**  `Archive.Good` is kept by every step.
* **Scope.**  A save that succeeds can be opened (`Steps.reopen`), and every history of a `Session` is
  one of an archive (`steps_of_session`).
-/

namespace Rebuild.Cache

/-! ## Operations -/

namespace Orderly

variable {c c' : Cache} {tree : FileTree} {now : Timestamp} {p : Path} {output : String}
  {reported : List Path} {metadata : Option Json}

lemma store (h : c.Orderly) (hstore : c.store tree now p output reported metadata = .ok c') :
    c'.Orderly := by
  obtain ⟨r, e, -, -, -, -, hgraph⟩ := exists_tables hstore
  have hreported : ∀ d ∈ reported.map Path.normalize, d.normalize = d :=
    fun _ => Path.normalize_of_mem_map
  refine ⟨h.agree.store hstore, ?_, ?_, fun q => ?_⟩
  · rw [hgraph]
    exact (h.inStep.setDependencies _ _).recordBuild _ _ _ _
  · rw [hgraph]
    exact (h.normal.setDependencies (Path.normalize_normalize p) hreported).recordBuild _ _ _ _
  · rw [hgraph]
    by_cases hpq : compare p.normalize q = .eq
    · exact Graph.held_of_carries
        (Graph.carries_recordBuild _ ⟨r.digest, Digest.ofText output, metadata⟩ hpq)
    · exact ((h.held q).setDependencies _ hpq).recordBuild hpq

lemma invalidate (h : c.Orderly) (p : Path) : (c.invalidate p).Orderly :=
  ⟨h.agree.invalidate p, h.inStep, h.normal, h.held⟩

lemma removeFile (h : c.Orderly) (p : Path) : (c.removeFile p).Orderly := by
  refine ⟨h.agree.removeFile p, ?_, ?_, fun q => ?_⟩
  · rw [graph_removeFile]
    exact h.inStep.remove _
  · rw [graph_removeFile]
    exact h.normal.remove _
  · rw [graph_removeFile]
    exact (h.held q).remove

lemma sameContent (h : c.Orderly) (hsame : c.SameContent c') : c'.Orderly := by
  refine ⟨h.agree.sameContent hsame, ?_, ?_, fun q => ?_⟩
  · rw [hsame.graph]
    exact h.inStep
  · rw [hsame.graph]
    exact h.normal
  · rw [hsame.graph]
    exact h.held q

end Orderly

/-! ## Histories -/

/-- A cache, the files, and both documents of each save that succeeded. -/
structure Archive where
  cache : Cache
  tree : FileTree
  saved : Set (String × String) := ∅

namespace Archive

/-- One operation, or an edit of the files.  Asking whether a file has to be compiled changes nothing,
and neither does a store that fails; a save that fails changes files only. -/
inductive Step : Archive → Archive → Prop where
  | edit {s : Archive} (tree : FileTree) : Step s { s with tree }
  | store {s : Archive} {now : Timestamp} {p : Path} {output : String} {dependencies : List Path}
      {metadata : Option Json} {cache : Cache}
      (h : s.cache.store s.tree now p output dependencies metadata = .ok cache) :
      Step s { s with cache }
  | get {s : Archive} (p : Path) : Step s { s with cache := (s.cache.get s.tree p).1 }
  | invalidate {s : Archive} (p : Path) : Step s { s with cache := s.cache.invalidate p }
  | remove {s : Archive} (p : Path) : Step s { s with cache := s.cache.removeFile p }
  | clear {s : Archive} :
      Step s { s with cache := (s.cache.clear s.tree).1, tree := (s.cache.clear s.tree).2.1 }
  | save {s : Archive} {faults : Faults} {fresh : String} {now : Timestamp} {tree : FileTree}
      (h : s.cache.save faults fresh now s.tree = (tree, .ok ())) :
      Step s { s with
        tree
        saved := insert (CacheStore.renderEntries now s.cache.entries,
          CacheStore.renderGraph now s.cache.graphDocument) s.saved }
  | reopen {s : Archive} {directory : Path} {texts : String × String} (h : texts ∈ s.saved)
      (hentries : s.tree.readText (directory.join entriesFile) = .ok texts.1)
      (hgraph : s.tree.readText (directory.join graphFile) = .ok texts.2)
      (haccepted : (CacheStore.entries? s.tree directory).isSome = true)
      (haccepted' : (CacheStore.graph? s.tree directory).isSome = true) :
      Step s { s with cache := load s.tree directory }
  | reopenCold {s : Archive} {directory : Path}
      (hentries : CacheStore.entries? s.tree directory = none)
      (hgraph : ∀ content, CacheStore.graph? s.tree directory = some content →
        ∃ texts ∈ s.saved, s.tree.readText (directory.join graphFile) = .ok texts.2) :
      Step s { s with cache := load s.tree directory }

/-- Any number of steps. -/
abbrev Steps : Archive → Archive → Prop := Relation.ReflTransGen Step

/-- An empty cache, and nothing saved. -/
def cold (tree : FileTree) (directory : Path) : Archive := { cache := { directory }, tree }

/-- What holds at any point of a history. -/
structure Good (s : Archive) : Prop where
  orderly : s.cache.Orderly
  saved : ∀ texts ∈ s.saved, ∃ (c : Cache) (now : Timestamp), c.Orderly
    ∧ texts = (CacheStore.renderEntries now c.entries, CacheStore.renderGraph now c.graphDocument)

variable {s s' : Archive} {tree : FileTree} {directory : Path}

lemma Good.cold (tree : FileTree) (directory : Path) : (cold tree directory).Good where
  orderly := .of_empty rfl rfl
  saved _ h := nomatch h

/-- **Every step keeps the invariant.** -/
theorem Good.step (h : s.Good) (hstep : Step s s') : s'.Good := by
  cases hstep with
  | edit tree => exact ⟨h.orderly, h.saved⟩
  | store hstore => exact ⟨h.orderly.store hstore, h.saved⟩
  | get p => exact ⟨h.orderly.sameContent (sameContent_get s.cache s.tree p), h.saved⟩
  | invalidate p => exact ⟨h.orderly.invalidate p, h.saved⟩
  | remove p => exact ⟨h.orderly.removeFile p, h.saved⟩
  | clear =>
      obtain ⟨hentries, hgraph⟩ := entries_clear s.cache s.tree
      exact ⟨.of_empty hentries hgraph, h.saved⟩
  | @save faults fresh now tree hsave =>
      refine ⟨h.orderly, fun texts htexts => ?_⟩
      rcases Set.mem_insert_iff.1 htexts with rfl | htexts
      · exact ⟨s.cache, now, h.orderly, rfl⟩
      · exact h.saved texts htexts
  | reopen htexts hentries hgraph haccepted haccepted' =>
      obtain ⟨c, now, hc, rfl⟩ := h.saved _ htexts
      exact ⟨hc.restored (restored_load hentries hgraph haccepted haccepted'), h.saved⟩
  | reopenCold hentries hgraph =>
      refine ⟨orderly_load hentries fun content hcontent => ?_, h.saved⟩
      obtain ⟨texts, htexts, hread⟩ := hgraph content hcontent
      obtain ⟨c, now, hc, rfl⟩ := h.saved texts htexts
      exact ⟨c, now, hc, hread⟩

/-- The tables of a cache are in step at any point of its history. -/
theorem orderly_of_steps (hsteps : Steps (cold tree directory) s) : s.cache.Orderly := by
  have hgood : s.Good := by
    induction hsteps with
    | refl => exact .cold tree directory
    | tail _ hstep ih => exact ih.step hstep
  exact hgood.orderly

/-! ## What histories there are -/

/-- What is saved can be opened, if the tree is one that a disk can hold and the documents are
accepted. -/
theorem Steps.reopen {faults : Faults} {fresh : String} {now : Timestamp}
    (hrooted : s.tree.Rooted) (hfresh : '/' ∉ fresh.toList)
    (hsave : s.cache.save faults fresh now s.tree = (tree, .ok ()))
    (haccepted : (CacheStore.entries? tree s.cache.directory).isSome = true)
    (haccepted' : (CacheStore.graph? tree s.cache.directory).isSome = true) :
    ∃ saved, Steps s ⟨load tree s.cache.directory, tree, saved⟩ := by
  obtain ⟨hentries, hgraph⟩ := readText_of_save hrooted hfresh hsave
  have hsaved : Steps s _ := Relation.ReflTransGen.single (.save hsave)
  exact ⟨_, hsaved.tail (.reopen (Set.mem_insert _ _) hentries hgraph haccepted haccepted')⟩

/-- One step of a session. -/
lemma steps_of_session_step {known : Set ByteArray} {t t' : Session} (hgood : t.Good known)
    (hstep : Session.Step known t t') (saved : Set (String × String)) :
    ∃ saved', Steps ⟨t.cache, t.tree, saved⟩ ⟨t'.cache, t'.tree, saved'⟩ := by
  cases hstep with
  | edit tree _ => exact ⟨saved, .single (.edit tree)⟩
  | store _ _ hstore => exact ⟨saved, .single (.store hstore)⟩
  | get p => exact ⟨saved, .single (.get p)⟩
  | invalidate p => exact ⟨saved, .single (.invalidate p)⟩
  | remove p => exact ⟨saved, .single (.remove p)⟩
  | clear => exact ⟨saved, .single .clear⟩
  | reopen hnow hfresh _ hsave =>
      obtain ⟨hentries, hgraph⟩ := readText_of_save hgood.ordinary.rooted hfresh hsave
      obtain ⟨entries, haccepted, -⟩ :=
        CacheStore.exists_entries?_render hentries hnow hgood.storable.entries
      obtain ⟨content, haccepted', -⟩ := CacheStore.exists_graph?_render hgraph hnow
        hgood.storable.graph hgood.storable.records
      exact Steps.reopen (s := ⟨t.cache, t.tree, saved⟩) hgood.ordinary.rooted hfresh hsave
        (Option.isSome_iff_exists.2 ⟨_, haccepted⟩) (Option.isSome_iff_exists.2 ⟨_, haccepted'⟩)

/-- **Every history of a session is one of an archive.** -/
theorem steps_of_session {known : Set ByteArray} (htree : tree.Ordinary known) {t : Session}
    (hsteps : Session.Steps known (Session.cold tree directory) t) :
    ∃ saved, Steps (cold tree directory) ⟨t.cache, t.tree, saved⟩ := by
  have hboth : t.Good known ∧ ∃ saved, Steps (cold tree directory) ⟨t.cache, t.tree, saved⟩ := by
    induction hsteps with
    | refl => exact ⟨.cold htree directory, ∅, .refl⟩
    | tail _ hstep ih =>
        obtain ⟨hgood, saved, hsteps⟩ := ih
        obtain ⟨saved', hmore⟩ := steps_of_session_step hgood hstep saved
        exact ⟨hgood.step hstep, saved', hsteps.trans hmore⟩
  exact hboth.2

end Archive

/-! ## Agreement -/

/-- **The two checks agree.**  After any history, a file need not be compiled exactly if the cache has an
entry for it and every file that the entry depends on can be read and is what its record says. -/
theorem checks_agree {tree : FileTree} {directory : Path} {s : Archive}
    (hsteps : Archive.Steps (Archive.cold tree directory) s) (p : Path) :
    s.cache.needsRecompilation s.tree p = false ↔
      ∃ e, (s.cache.get s.tree p).2 = some e ∧ ∀ d ∈ e.dependencies, ∃ r,
        s.cache.records[d]? = some r ∧ currentDigest? s.tree d = some r.digest := by
  have hagree := (Archive.orderly_of_steps hsteps).agree
  rw [needsRecompilation_eq_false_iff]
  constructor
  · rintro ⟨now, r, e, hnow, hrecord, hentry, rfl, hdependencies⟩
    obtain ⟨r', hrecord', hdigest⟩ := (hagree _ e hentry).record
    cases hrecord.symm.trans hrecord'
    refine ⟨e, ?_, fun d hd => recordAgrees_iff.1 (hdependencies d hd).2⟩
    rw [get_snd, validEntry?_eq_some_iff]
    exact ⟨hentry, hnow.trans (congrArg some hdigest), fun d hd => (hdependencies d hd).1⟩
  · rintro ⟨e, hget, hdependencies⟩
    rw [get_snd, validEntry?_eq_some_iff] at hget
    obtain ⟨hentry, hnow, hstamps⟩ := hget
    obtain ⟨r, hrecord, hdigest⟩ := (hagree _ e hentry).record
    exact ⟨e.inputDigest, r, e, hnow, hrecord, hentry, hdigest,
      fun d hd => ⟨hstamps d hd, recordAgrees_iff.2 (hdependencies d hd)⟩⟩

/-- The file that is put back: both checks find the entry that needs it. -/
theorem checks_agree_put_back : ∃ s e,
    Archive.Steps (Archive.cold (PutBack.treeWith "1") ⟨"cache"⟩) s
      ∧ (s.cache.get s.tree ⟨"b"⟩).2 = some e ∧ ⟨"a"⟩ ∈ e.dependencies
      ∧ s.cache.needsRecompilation s.tree ⟨"b"⟩ = false
      ∧ ∃ r, s.cache.records[(⟨"a"⟩ : Path)]? = some r
        ∧ currentDigest? s.tree ⟨"a"⟩ = some r.digest := by
  obtain ⟨t, e, m, hsteps, hget, hneeds, -, hmem, -⟩ := PutBack.exists_session
  obtain ⟨saved, hsteps⟩ := Archive.steps_of_session PutBack.ordinary_one hsteps
  obtain ⟨e', hget', hdependencies⟩ := (checks_agree hsteps ⟨"b"⟩).1 hneeds
  cases hget.symm.trans hget'
  exact ⟨_, e, hsteps, hget, hmem, hneeds, hdependencies _ hmem⟩

end Rebuild.Cache
