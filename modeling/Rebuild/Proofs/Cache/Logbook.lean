import Rebuild.Proofs.Cache.Archive

/-!
# The tables of a cache, over its whole history

An archive knows the cache and its documents, but not which files were stored.  A `Logbook` is an
archive that remembers what the last store of each file was told that it needs, and with each save what
had been told by then: what is opened of a save takes the files back to that moment.

* **Graphs.**  `Graph.Follows` ties nodes and edges to what was told; each operation that changes the
  graph has one lemma (`Follows.store`, `Follows.remove`, `Follows.restored`).
* **Histories.**  `Follows` is kept by every step (`Logbook.Good.step`), and leaving out what was told
  gives a history of an archive (`Steps.archive`), in which the tables are in step.  No history is lost
  (`exists_steps_of_archive`).
* **Endpoint.**  `tables_agree`: entries, records and nodes say the same, and there are nodes for exactly
  the files that were stored and for what these need.
-/

namespace Rebuild

/-! ## Graphs -/

namespace Graph

/-- The edges lead from each file that was stored to what it needs, and exactly the files that were stored
have a build. -/
structure Follows (g : Graph) (told : Path → Option (List Path)) : Prop where
  normal : ∀ p ds, told p = some ds → p.normalize = p ∧ ∀ d ∈ ds, d.normalize = d
  needs : ∀ p q, g.Needs p q ↔ compare p p.normalize = .eq ∧ compare q q.normalize = .eq
    ∧ ∃ ds, told p.normalize = some ds ∧ q.normalize ∈ ds
  builds : ∀ p, ∃ b, g.Carries p b
    ∧ (b.isSome = true ↔ compare p p.normalize = .eq ∧ (told p.normalize).isSome = true)

variable {g g' : Graph} {p q : Path} {told : Path → Option (List Path)}

/-- A file that was not built is opened without a build. -/
lemma Restored.carries_none (h : g.Restored g') (hnone : g.Carries p none) : g'.Carries p none := by
  obtain ⟨nodes, rfl, hnodes⟩ := h
  refine carries_ofNodes (Cache.carries_of_same hnodes ?_)
  rw [Carries] at hnone ⊢
  rw [node?_renoted]
  cases hn : g.node? p with
  | none => rfl
  | some n =>
      rw [hn] at hnone
      exact ⟨hnone.1, hnone.2.1, congrArg Json.renoted hnone.2.2⟩

namespace Follows

lemma empty : Follows {} fun _ => none where
  normal _ _ h := nomatch h
  needs p q := by simp [Needs, node?]
  builds p := ⟨none, rfl, by simp⟩

/-- New edges of one file are those that were told anew of it. -/
lemma needs_update (h : g.Follows told) (hp : p.normalize = p) {now : Option (List Path)}
    (hnormal : ∀ ds, now = some ds → ∀ d ∈ ds, d.normalize = d)
    (hneeds : ∀ q d, g'.Needs q d ↔
      if compare p q = .eq then ∃ x ∈ now.getD [], compare x d = .eq else g.Needs q d) (q d : Path) :
    g'.Needs q d ↔ compare q q.normalize = .eq ∧ compare d d.normalize = .eq
      ∧ ∃ ds, Function.update told p now q.normalize = some ds ∧ d.normalize ∈ ds := by
  rw [hneeds]
  split_ifs with hpq
  · have hq : q.normalize = p := (Path.normalize_congr hpq).symm.trans hp
    rw [hq, Function.update_self, and_iff_right (Path.compare_comm.1 hpq)]
    cases now with
    | none => simp
    | some ds =>
        rw [Option.getD_some]
        constructor
        · rintro ⟨x, hx, hxd⟩
          have hdx : d.normalize = x := (Path.normalize_congr hxd).symm.trans (hnormal ds rfl x hx)
          exact ⟨hdx ▸ Path.compare_comm.1 hxd, ds, rfl, hdx ▸ hx⟩
        · rintro ⟨hd, _, ⟨⟩, hmem⟩
          exact ⟨d.normalize, hmem, Path.compare_comm.1 hd⟩
  · rw [h.needs q d]
    refine and_congr_right fun hq => ?_
    have hne : q.normalize ≠ p := fun heq => hpq (Path.compare_comm.1 (heq ▸ hq))
    rw [Function.update_of_ne hne]

/-- A graph with new edges and a new build of one file follows what was told anew of that file. -/
lemma update (h : g.Follows told) (hp : p.normalize = p) {b : Option Build} {now : Option (List Path)}
    (hnormal : ∀ ds, now = some ds → ∀ d ∈ ds, d.normalize = d) (hb : b.isSome = now.isSome)
    (hneeds : ∀ q d, g'.Needs q d ↔
      if compare p q = .eq then ∃ x ∈ now.getD [], compare x d = .eq else g.Needs q d)
    (hself : ∀ q, compare p q = .eq → g'.Carries q b)
    (hother : ∀ q b', ¬compare p q = .eq → g.Carries q b' → g'.Carries q b') :
    g'.Follows (Function.update told p now) := by
  refine ⟨fun q ds hds => ?_, h.needs_update hp hnormal hneeds, fun q => ?_⟩
  · rw [Function.update_apply] at hds
    split_ifs at hds with hqp
    · exact ⟨by rw [hqp, hp], hnormal ds hds⟩
    · exact h.normal q ds hds
  · by_cases hpq : compare p q = .eq
    · have hq : q.normalize = p := (Path.normalize_congr hpq).symm.trans hp
      refine ⟨b, hself q hpq, ?_⟩
      rw [hq, Function.update_self, hb, and_iff_right (Path.compare_comm.1 hpq)]
    · obtain ⟨b', hb', hiff⟩ := h.builds q
      refine ⟨b', hother q b' hpq hb', hiff.trans (and_congr_right fun hq => ?_)⟩
      have hne : q.normalize ≠ p := fun heq => hpq (Path.compare_comm.1 (heq ▸ hq))
      rw [Function.update_of_ne hne]

/-- A store that is told what a file needs. -/
lemma store (h : g.Follows told) (p : Path) (reported : List Path) (b : Build) :
    ((g.setDependencies p.normalize (reported.map Path.normalize)).recordBuild
      p.normalize b.input b.output b.metadata).Follows
      (Function.update told p.normalize (some (reported.map Path.normalize))) := by
  refine h.update (Path.normalize_normalize p) (b := some b) ?_ rfl (fun q d => ?_) ?_ ?_
  · rintro ds ⟨⟩
    exact fun _ => Path.normalize_of_mem_map
  · rw [needs_recordBuild, needs_setDependencies, Option.getD_some]
  · exact fun q hpq => carries_recordBuild _ b hpq
  · exact fun q b' hpq hb' => (hb'.setDependencies _ _).recordBuild _ _ _ hpq

lemma remove (h : g.Follows told) (p : Path) :
    (g.remove p.normalize).Follows (Function.update told p.normalize none) := by
  refine h.update (Path.normalize_normalize p) (b := none) (fun _ hds => nomatch hds) rfl
    (fun q d => ?_) (fun q hpq => carries_remove g hpq) fun q b' hpq hb' => hb'.remove hpq
  rw [needs_remove]
  split_ifs with hpq <;> simp [hpq]

/-- What is opened follows what was told before the save. -/
lemma restored (h : g.Follows told) (hrestored : g.Restored g') : g'.Follows told where
  normal := h.normal
  needs p q := hrestored.needs_iff.trans (h.needs p q)
  builds p := by
    obtain ⟨b, hb, hiff⟩ := h.builds p
    cases b with
    | none => exact ⟨none, hrestored.carries_none hb, hiff⟩
    | some b => exact ⟨_, hrestored.carries hb, hiff⟩

/-- A file has a build exactly if it was stored. -/
lemma built_iff (h : g.Follows told) (p : Path) :
    (∃ n, g.node? p = some n ∧ n.inputDigest.isSome = true)
      ↔ compare p p.normalize = .eq ∧ (told p.normalize).isSome = true := by
  obtain ⟨b, hb, hiff⟩ := h.builds p
  rw [← hiff]
  rw [Carries] at hb
  cases hn : g.node? p with
  | none =>
      rw [hn] at hb
      simp [show b = none from hb]
  | some n =>
      rw [hn] at hb
      cases b with
      | none => simp [hb.1]
      | some b => simp [hb.1]

/-- A file has a node exactly if it was stored or is needed by a file that was stored. -/
lemma contains_iff (h : g.Follows told) (hstep : g.InStep) (hheld : g.Held q) :
    g.contains q = true ↔ ∃ p ds, told p = some ds
      ∧ (compare p q = .eq ∨ ∃ d ∈ ds, compare d q = .eq) := by
  rw [Graph.contains_iff hstep hheld, h.built_iff q]
  constructor
  · rintro (⟨hq, hsome⟩ | ⟨d, hneeds⟩ | ⟨p, hneeds⟩)
    · obtain ⟨ds, hds⟩ := Option.isSome_iff_exists.1 hsome
      exact ⟨_, ds, hds, Or.inl (Path.compare_comm.1 hq)⟩
    · obtain ⟨hq, -, ds, hds, -⟩ := (h.needs q d).1 hneeds
      exact ⟨_, ds, hds, Or.inl (Path.compare_comm.1 hq)⟩
    · obtain ⟨-, hq, ds, hds, hmem⟩ := (h.needs p q).1 hneeds
      exact ⟨_, ds, hds, Or.inr ⟨_, hmem, Path.compare_comm.1 hq⟩⟩
  · rintro ⟨p, ds, hds, hpq | ⟨d, hd, hdq⟩⟩
    · have hq : q.normalize = p := (Path.normalize_congr hpq).symm.trans (h.normal p ds hds).1
      rw [hq, hds]
      exact Or.inl ⟨Path.compare_comm.1 hpq, rfl⟩
    · obtain ⟨hp, hnormal⟩ := h.normal p ds hds
      have hq : q.normalize = d := (Path.normalize_congr hdq).symm.trans (hnormal d hd)
      refine Or.inr (Or.inr ⟨p, (h.needs p q).2 ⟨?_, ?_, ds, ?_, ?_⟩⟩)
      · exact hp.symm ▸ Path.compare_self p
      · exact hq.symm ▸ Path.compare_comm.1 hdq
      · rw [hp, hds]
      · rwa [hq]

end Follows

end Graph

namespace Cache

/-! ## Histories -/

/-- Both documents of a save, and what the stores before it were told. -/
structure Saving where
  texts : String × String
  told : Path → Option (List Path)

/-- A cache and the files, what the last store of each file was told that it needs, unless the file was
removed since, and every save that succeeded. -/
structure Logbook where
  cache : Cache
  tree : FileTree
  told : Path → Option (List Path) := fun _ => none
  saved : Set Saving := ∅

namespace Logbook

/-- One operation, or an edit of the files, as in an archive. -/
inductive Step : Logbook → Logbook → Prop where
  | edit {s : Logbook} (tree : FileTree) : Step s { s with tree }
  | store {s : Logbook} {now : Timestamp} {p : Path} {output : String} {dependencies : List Path}
      {metadata : Option Json} {cache : Cache}
      (h : s.cache.store s.tree now p output dependencies metadata = .ok cache) :
      Step s { s with
        cache
        told := Function.update s.told p.normalize (some (dependencies.map Path.normalize)) }
  | get {s : Logbook} (p : Path) : Step s { s with cache := (s.cache.get s.tree p).1 }
  | invalidate {s : Logbook} (p : Path) : Step s { s with cache := s.cache.invalidate p }
  | remove {s : Logbook} (p : Path) :
      Step s { s with
        cache := s.cache.removeFile p
        told := Function.update s.told p.normalize none }
  | clear {s : Logbook} :
      Step s { s with
        cache := (s.cache.clear s.tree).1
        tree := (s.cache.clear s.tree).2.1
        told := fun _ => none }
  | save {s : Logbook} {faults : Faults} {fresh : String} {now : Timestamp} {tree : FileTree}
      (h : s.cache.save faults fresh now s.tree = (tree, .ok ())) :
      Step s { s with
        tree
        saved := insert ⟨(CacheStore.renderEntries now s.cache.entries,
          CacheStore.renderGraph now s.cache.graphDocument), s.told⟩ s.saved }
  | reopen {s : Logbook} {directory : Path} {saving : Saving} (h : saving ∈ s.saved)
      (hentries : s.tree.readText (directory.join entriesFile) = .ok saving.texts.1)
      (hgraph : s.tree.readText (directory.join graphFile) = .ok saving.texts.2)
      (haccepted : (CacheStore.entries? s.tree directory).isSome = true)
      (haccepted' : (CacheStore.graph? s.tree directory).isSome = true) :
      Step s { s with cache := load s.tree directory, told := saving.told }
  | reopenGraph {s : Logbook} {directory : Path} {saving : Saving} (h : saving ∈ s.saved)
      (hentries : CacheStore.entries? s.tree directory = none)
      (hgraph : s.tree.readText (directory.join graphFile) = .ok saving.texts.2)
      (haccepted : (CacheStore.graph? s.tree directory).isSome = true) :
      Step s { s with cache := load s.tree directory, told := saving.told }
  | reopenCold {s : Logbook} {directory : Path}
      (hentries : CacheStore.entries? s.tree directory = none)
      (hgraph : CacheStore.graph? s.tree directory = none) :
      Step s { s with cache := load s.tree directory, told := fun _ => none }

/-- Any number of steps. -/
abbrev Steps : Logbook → Logbook → Prop := Relation.ReflTransGen Step

/-- An empty cache, and nothing stored or saved. -/
def cold (tree : FileTree) (directory : Path) : Logbook := { cache := { directory }, tree }

/-- The last store of `p` was told that it needs `q`. -/
def Leads (s : Logbook) (p q : Path) : Prop := ∃ ds, s.told p = some ds ∧ q ∈ ds

/-- What holds at any point of a history. -/
structure Good (s : Logbook) : Prop where
  follows : s.cache.graph.Follows s.told
  saved : ∀ saving ∈ s.saved, ∃ (c : Cache) (now : Timestamp), c.graph.Follows saving.told
    ∧ saving.texts
      = (CacheStore.renderEntries now c.entries, CacheStore.renderGraph now c.graphDocument)

variable {s s' : Logbook} {tree : FileTree} {directory : Path}

lemma Good.cold (tree : FileTree) (directory : Path) : (cold tree directory).Good where
  follows := .empty
  saved _ h := nomatch h

/-- A graph that was saved with `told` is opened. -/
lemma Good.follows_load (h : s.Good) {saving : Saving} (hsaved : saving ∈ s.saved)
    (hread : s.tree.readText (directory.join graphFile) = .ok saving.texts.2)
    (haccepted : (CacheStore.graph? s.tree directory).isSome = true) :
    (load s.tree directory).graph.Follows saving.told := by
  obtain ⟨c, now, hfollows, htexts⟩ := h.saved saving hsaved
  rw [htexts] at hread
  obtain ⟨content, hfound⟩ := Option.isSome_iff_exists.1 haccepted
  rw [load, CacheStore.loadGraph_eq, hfound, Option.getD_some]
  exact hfollows.restored (restored_ofNodes hread hfound)

/-- **Every step keeps the invariant.** -/
theorem Good.step (h : s.Good) (hstep : Step s s') : s'.Good := by
  cases hstep with
  | edit tree => exact ⟨h.follows, h.saved⟩
  | @store now p output dependencies metadata cache hstore =>
      obtain ⟨r, e, -, -, -, -, hgraph⟩ := exists_tables hstore
      refine ⟨?_, h.saved⟩
      rw [hgraph]
      exact h.follows.store p dependencies ⟨r.digest, Digest.ofText output, metadata⟩
  | get p =>
      refine ⟨?_, h.saved⟩
      rw [(sameContent_get s.cache s.tree p).graph]
      exact h.follows
  | invalidate p => exact ⟨h.follows, h.saved⟩
  | remove p => exact ⟨h.follows.remove p, h.saved⟩
  | clear =>
      refine ⟨?_, h.saved⟩
      rw [(entries_clear s.cache s.tree).2]
      exact .empty
  | @save faults fresh now tree hsave =>
      refine ⟨h.follows, fun saving hsaving => ?_⟩
      rcases Set.mem_insert_iff.1 hsaving with rfl | hsaving
      · exact ⟨s.cache, now, h.follows, rfl⟩
      · exact h.saved saving hsaving
  | reopen hsaved _ hgraph _ haccepted => exact ⟨h.follows_load hsaved hgraph haccepted, h.saved⟩
  | reopenGraph hsaved _ hgraph haccepted =>
      exact ⟨h.follows_load hsaved hgraph haccepted, h.saved⟩
  | reopenCold _ hgraph =>
      refine ⟨?_, h.saved⟩
      rw [load, CacheStore.loadGraph_eq, hgraph]
      exact .empty

/-- What is stored is in the graph at any point of a history. -/
theorem follows_of_steps (hsteps : Steps (cold tree directory) s) :
    s.cache.graph.Follows s.told := by
  have hgood : s.Good := by
    induction hsteps with
    | refl => exact .cold tree directory
    | tail _ hstep ih => exact ih.step hstep
  exact hgood.follows

/-! ## Archives -/

/-- The archive, without what was told. -/
def archive (s : Logbook) : Archive := ⟨s.cache, s.tree, Saving.texts '' s.saved⟩

lemma Step.archive (hstep : Step s s') : Archive.Step s.archive s'.archive := by
  cases hstep with
  | edit tree => exact .edit tree
  | store hstore => exact .store (s := s.archive) hstore
  | get p => exact .get (s := s.archive) p
  | invalidate p => exact .invalidate (s := s.archive) p
  | remove p => exact .remove (s := s.archive) p
  | clear => exact .clear (s := s.archive)
  | save hsave =>
      simp only [Logbook.archive, Set.image_insert_eq]
      exact .save (s := s.archive) hsave
  | reopen hsaved hentries hgraph haccepted haccepted' =>
      exact .reopen (s := s.archive) (Set.mem_image_of_mem _ hsaved) hentries hgraph haccepted
        haccepted'
  | reopenGraph hsaved hentries hgraph _ =>
      exact .reopenCold (s := s.archive) hentries
        fun _ _ => ⟨_, Set.mem_image_of_mem _ hsaved, hgraph⟩
  | reopenCold hentries hgraph =>
      refine .reopenCold (s := s.archive) hentries fun content hcontent => ?_
      cases hgraph.symm.trans hcontent

lemma Steps.archive (hsteps : Steps s s') : Archive.Steps s.archive s'.archive :=
  Relation.ReflTransGen.lift Logbook.archive (fun _ _ => Step.archive) _ _ hsteps

/-- The tables are in step at any point of a history. -/
lemma orderly_of_steps (hsteps : Steps (cold tree directory) s) : s.cache.Orderly := by
  have harchive := hsteps.archive
  rw [Logbook.archive, Logbook.cold, Set.image_empty] at harchive
  exact Archive.orderly_of_steps harchive

/-- One step of an archive, of which more is told. -/
lemma exists_step_of_archive {t' : Archive} (hstep : Archive.Step s.archive t') :
    ∃ s', Step s s' ∧ s'.archive = t' := by
  cases hstep with
  | edit tree => exact ⟨_, .edit tree, rfl⟩
  | store hstore => exact ⟨_, .store hstore, rfl⟩
  | get p => exact ⟨_, .get p, rfl⟩
  | invalidate p => exact ⟨_, .invalidate p, rfl⟩
  | remove p => exact ⟨_, .remove p, rfl⟩
  | clear => exact ⟨_, .clear, rfl⟩
  | save hsave =>
      refine ⟨_, .save hsave, ?_⟩
      rw [Logbook.archive, Set.image_insert_eq]
      rfl
  | reopen htexts hentries hgraph haccepted haccepted' =>
      obtain ⟨saving, hsaved, rfl⟩ := htexts
      exact ⟨_, .reopen hsaved hentries hgraph haccepted haccepted', rfl⟩
  | @reopenCold directory hentries hgraph =>
      cases hfound : CacheStore.graph? s.tree directory with
      | none => exact ⟨_, .reopenCold hentries hfound, rfl⟩
      | some content =>
          obtain ⟨-, ⟨saving, hsaved, rfl⟩, hread⟩ := hgraph content hfound
          exact ⟨_, .reopenGraph hsaved hentries hread (hfound ▸ rfl), rfl⟩

/-- **Every history of an archive can be told.** -/
theorem exists_steps_of_archive {t : Archive}
    (hsteps : Archive.Steps (Archive.cold tree directory) t) :
    ∃ s, Steps (cold tree directory) s ∧ s.archive = t := by
  induction hsteps with
  | refl =>
      refine ⟨_, .refl, ?_⟩
      rw [Logbook.archive, Logbook.cold, Set.image_empty]
      rfl
  | tail _ hstep ih =>
      obtain ⟨s, hsteps, rfl⟩ := ih
      obtain ⟨s', hstep', hs'⟩ := exists_step_of_archive hstep
      exact ⟨s', hsteps.tail hstep', hs'⟩

end Logbook

/-! ## Tables -/

/-- **The tables stay in step.**  After any history, the record of a file that has an entry holds the
digest that the entry is about, its node the same build and exactly the dependencies of the entry,
and only dependencies are stamped; and the graph has nodes for exactly the files that were stored,
and neither removed nor cleared since, and for what these need. -/
theorem tables_agree {tree : FileTree} {directory : Path} {s : Logbook}
    (hsteps : Logbook.Steps (Logbook.cold tree directory) s) :
    (∀ (p : Path) (e : CacheEntry), s.cache.entries[p]? = some e →
      (∃ r, s.cache.records[p]? = some r ∧ r.digest = e.inputDigest)
      ∧ (∃ n, s.cache.graph.node? p = some n ∧ n.inputDigest = some e.inputDigest
        ∧ n.outputDigest = some e.outputDigest ∧ n.metadata = e.metadata
        ∧ e.outputDigest = Digest.ofText e.output
        ∧ ∀ q, q ∈ n.dependencies ↔ ∃ d ∈ e.dependencies, compare d q = .eq)
      ∧ ∀ q ∈ e.dependencyDigests, ∃ d ∈ e.dependencies, compare d q = .eq)
    ∧ ∀ q, s.cache.graph.contains q = true ↔ ∃ p ds, s.told p = some ds
      ∧ (compare p q = .eq ∨ ∃ d ∈ ds, compare d q = .eq) := by
  have horderly := Logbook.orderly_of_steps hsteps
  have hfollows := Logbook.follows_of_steps hsteps
  refine ⟨fun p e hentry => ?_, fun q => hfollows.contains_iff horderly.inStep (horderly.held q)⟩
  have hp := horderly.agree p e hentry
  refine ⟨hp.record, ?_, hp.stamps⟩
  have hbuild := hp.build
  rw [Graph.Carries] at hbuild
  cases hn : s.cache.graph.node? p with
  | none =>
      rw [hn] at hbuild
      cases hbuild
  | some n =>
      rw [hn] at hbuild
      refine ⟨n, rfl, hbuild.1, hbuild.2.1, hbuild.2.2, hp.output, fun q => ?_⟩
      rw [← hp.needs q, Graph.Needs, hn]
      simp

/-- Two stores, with edits before and after the second one. -/
lemma Logbook.exists_steps_twice {tree tree' : FileTree} (after : FileTree) {directory : Path}
    {now now' : Timestamp} {c₁ c₂ : Cache} {p q : Path} {output output' : String}
    {ds ds' : List Path} {metadata metadata' : Option Json}
    (hfirst : Cache.store { directory } tree now p output ds metadata = .ok c₁)
    (hsecond : c₁.store tree' now' q output' ds' metadata' = .ok c₂) :
    ∃ s, Steps (cold tree directory) s ∧ s.cache = c₂ ∧ s.tree = after
      ∧ s.told q.normalize = some (ds'.map Path.normalize) := by
  have hstored : Steps (cold tree directory) _ := .single (.store hfirst)
  have hedited := hstored.tail (.edit tree')
  have hagain := hedited.tail (.store hsecond)
  exact ⟨_, hagain.tail (.edit after), rfl, rfl, Function.update_self _ _ _⟩

/-- The history in which `b` is stored although the record of `a`, which it needs, is behind: the
tables agree nevertheless, and both files have nodes. -/
theorem tables_agree_behind : ∃ s e,
    Logbook.Steps (Logbook.cold (PutBack.treeWith "1") ⟨"cache"⟩) s
      ∧ s.cache.entries[(⟨"b"⟩ : Path).normalize]? = some e
      ∧ (∃ r, s.cache.records[(⟨"b"⟩ : Path).normalize]? = some r ∧ r.digest = e.inputDigest)
      ∧ s.cache.graph.contains ⟨"a"⟩ = true ∧ s.cache.graph.contains ⟨"b"⟩ = true := by
  obtain ⟨c₁, c₂, e, hfirst, hsecond, hget, -, hneeds⟩ := PutBack.exists_second
  obtain ⟨s, hsteps, hcache, htree, htold⟩ :=
    Logbook.exists_steps_twice (PutBack.treeWith "1") hfirst hsecond
  rw [← hcache, ← htree] at hget hneeds
  have hentry := (fresh?_eq_some_iff.1 (fresh?_eq_some_iff_asked.2 ⟨hget, hneeds⟩)).entry
  obtain ⟨htables, hnodes⟩ := tables_agree hsteps
  refine ⟨s, e, hsteps, hentry, (htables _ e hentry).1, ?_, ?_⟩
  · refine (hnodes _).2 ⟨_, _, htold, Or.inr ⟨⟨"a"⟩, ?_, Path.compare_self _⟩⟩
    decide
  · exact (hnodes _).2 ⟨_, _, htold, Or.inl (by decide)⟩

end Cache
end Rebuild
