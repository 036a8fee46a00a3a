import Rebuild.Proofs.Cache.Keeping

/-!
# Histories of a cache

A `Session` is a cache with the files around it, and with what the last store of each file found.  A
step is one operation of the cache or an edit of the files; asking whether a file has to be compiled
changes nothing, and neither does a store that fails.

* **Invariant.**  `Session.Good` is kept by every step: each entry is that of the last store, the
  cache can be written and read back, and both ends of each edge know of it (`Good.step`).
* **Endpoint.**  `fresh_answer_iff`: a fresh answer is about the files as the store found them, but
  for those dependencies whose records were behind at that moment.
-/

namespace Rebuild

/-- The files are such as a disk can hold, and their contents are known. -/
structure FileTree.Ordinary (known : Set ByteArray) (tree : FileTree) : Prop where
  rooted : tree.Rooted
  dated : tree.Dated
  within : Within known tree

/-- A rooted tree in which nothing new is found. -/
lemma FileTree.Ordinary.of_find? {known : Set ByteArray} {tree tree' : FileTree}
    (h : tree.Ordinary known) (hrooted : tree'.Rooted)
    (hfind : ∀ p e, tree'.find? p = .ok e → tree.find? p = .ok e) : tree'.Ordinary known where
  rooted := hrooted
  dated p f hf := h.dated p f (hfind p _ hf)
  within p bytes hread := by
    obtain ⟨f, hf, hbytes⟩ := FileTree.readBytes_eq_ok_iff.1 hread
    exact h.within p bytes (FileTree.readBytes_eq_ok_iff.2 ⟨f, hfind p _ hf, hbytes⟩)

lemma FileTree.Ordinary.mono {known known' : Set ByteArray} {tree : FileTree}
    (h : tree.Ordinary known)
    (hsub : known ⊆ known') : tree.Ordinary known' where
  rooted := h.rooted
  dated := h.dated
  within p bytes hread := hsub (h.within p bytes hread)

lemma FileTree.ordinary_ofTexts {known : Set ByteArray} {files : List (String × String)}
    (h : ∀ f ∈ files, f.2.toUTF8 ∈ known ∧ f.2.toUTF8.size < UInt64.size) :
    (ofTexts files).Ordinary known where
  rooted := rooted_ofTexts files
  dated p file hfind := by
    obtain ⟨names, hentry⟩ := exists_entry_of_find? hfind
    obtain ⟨f, hf, -, hfile⟩ := entries_ofTexts hentry
    cases hfile
    exact ⟨fun t ht => (by cases ht), (h f hf).2⟩
  within := within_ofTexts fun f hf => (h f hf).1

namespace Cache

/-- What a store found, and what it was given. -/
structure Moment where
  /-- The cache before the store. -/
  cache : Cache
  tree : FileTree
  output : String
  dependencies : List Path

/-- A cache, the files, and the last store of each file, unless the file was removed since. -/
structure Session where
  cache : Cache
  tree : FileTree
  last : Path → Option Moment := fun _ => none

namespace Session

/-- One operation, or an edit of the files. -/
inductive Step (known : Set ByteArray) : Session → Session → Prop where
  | edit {s : Session} (tree : FileTree) (h : tree.Ordinary known) : Step known s { s with tree }
  | store {s : Session} {now : Timestamp} {p : Path} {output : String} {dependencies : List Path}
      {metadata : Option Json} {cache : Cache} (hnow : now.Reads)
      (hmetadata : ∀ v ∈ metadata, v.Noted)
      (h : s.cache.store s.tree now p output dependencies metadata = .ok cache) :
      Step known s { s with
        cache
        last := Function.update s.last p.normalize
          (some ⟨s.cache, s.tree, output, dependencies.map Path.normalize⟩) }
  | get {s : Session} (p : Path) : Step known s { s with cache := (s.cache.get s.tree p).1 }
  | invalidate {s : Session} (p : Path) : Step known s { s with cache := s.cache.invalidate p }
  | remove {s : Session} (p : Path) :
      Step known s { s with
        cache := s.cache.removeFile p
        last := Function.update s.last p.normalize none }
  | clear {s : Session} :
      Step known s { cache := (s.cache.clear s.tree).1, tree := (s.cache.clear s.tree).2.1 }
  | reopen {s : Session} {faults : Faults} {fresh : String} {now : Timestamp} {tree : FileTree}
      (hnow : now.Reads) (hfresh : '/' ∉ fresh.toList) (h : tree.Ordinary known)
      (hsave : s.cache.save faults fresh now s.tree = (tree, .ok ())) :
      Step known s { s with cache := load tree s.cache.directory, tree }

/-- Any number of steps. -/
abbrev Steps (known : Set ByteArray) : Session → Session → Prop :=
  Relation.ReflTransGen (Step known)

/-- An empty cache. -/
def cold (tree : FileTree) (directory : Path) : Session := { cache := { directory }, tree }

end Session

/-! ## The invariant -/

/-- The entry of `p` is the one that was stored at that moment. -/
def Moment.Made (m : Moment) (p : Path) (e : CacheEntry) : Prop :=
  ∃ c' e₀ metadata, m.cache.Stored m.tree p m.output m.dependencies metadata c' e₀ ∧ e₀.Same e

lemma Moment.Made.dependencies {m : Moment} {p : Path} {e : CacheEntry} (h : m.Made p e) :
    e.dependencies = m.dependencies := by
  obtain ⟨c', e₀, metadata, hstored, hsame⟩ := h
  rw [hsame.dependencies, hstored.dependencies_eq]

/-- What holds at any point of a history. -/
structure Session.Good (known : Set ByteArray) (s : Session) : Prop where
  ordinary : s.tree.Ordinary known
  storable : s.cache.Storable
  moments : ∀ p m, s.last p = some m → Within known m.tree ∧ ∀ d ∈ m.dependencies, d.normalize = d
  entries : ∀ p e, p.normalize = p → s.cache.entries[p]? = some e →
    ∃ m, s.last p = some m ∧ m.Made p e
  inStep : s.cache.graph.InStep

namespace Session.Good

variable {known : Set ByteArray} {s s' : Session}

lemma cold {tree : FileTree} (h : tree.Ordinary known) (directory : Path) :
    (Session.cold tree directory).Good known where
  ordinary := h
  storable := storable_cold directory
  moments p m hlast := by cases hlast
  entries p e _ hentry := by
    simp [Session.cold] at hentry
  inStep := Graph.inStep_empty

lemma store (h : s.Good known) {now : Timestamp} {p : Path} {output : String}
    {dependencies : List Path} {metadata : Option Json} {cache : Cache} (hnow : now.Reads)
    (hmetadata : ∀ v ∈ metadata, v.Noted)
    (hstore : s.cache.store s.tree now p output dependencies metadata = .ok cache) :
    Session.Good known { s with
      cache
      last := Function.update s.last p.normalize
        (some ⟨s.cache, s.tree, output, dependencies.map Path.normalize⟩) } := by
  obtain ⟨e₀, hstored⟩ := exists_stored hstore
  have hds : ∀ d ∈ dependencies.map Path.normalize, d.normalize = d :=
    fun _ => Path.normalize_of_mem_map
  refine ⟨h.ordinary, h.storable.store h.ordinary.dated hnow hmetadata hstore, ?_, ?_, ?_⟩
  · intro q m hlast
    simp only [Function.update_apply] at hlast
    split_ifs at hlast
    · cases hlast
      exact ⟨h.ordinary.within, hds⟩
    · exact h.moments q m hlast
  · intro q e hq hentry
    simp only at hentry ⊢
    rw [hstored.entries q hq] at hentry
    by_cases hqp : q = p.normalize
    · rw [if_pos hqp] at hentry
      cases hentry
      rw [hqp, Function.update_self]
      exact ⟨_, rfl, cache, e₀, metadata, hstored, .refl e₀⟩
    · rw [if_neg hqp] at hentry
      rw [Function.update_of_ne hqp]
      exact h.entries q e hq hentry
  · show cache.graph.InStep
    rw [hstored.graph]
    exact (h.inStep.setDependencies _ _).recordBuild _ _ _ _

lemma invalidate (h : s.Good known) (p : Path) :
    Session.Good known { s with cache := s.cache.invalidate p } where
  ordinary := h.ordinary
  storable := h.storable.invalidate p
  moments := h.moments
  entries q e hq hentry := by
    simp only [Cache.invalidate, Std.TreeMap.getElem?_erase] at hentry
    split_ifs at hentry
    exact h.entries q e hq hentry
  inStep := h.inStep

lemma remove (h : s.Good known) (p : Path) :
    Session.Good known { s with
      cache := s.cache.removeFile p
      last := Function.update s.last p.normalize none } := by
  refine ⟨h.ordinary, h.storable.removeFile p, ?_, ?_, h.inStep.remove _⟩
  · intro q m hlast
    simp only [Function.update_apply] at hlast
    split_ifs at hlast
    exact h.moments q m hlast
  · intro q e hq hentry
    simp only [Cache.removeFile, Std.TreeMap.getElem?_erase] at hentry
    split_ifs at hentry with hpq
    have hne : q ≠ p.normalize := by
      rintro rfl
      exact hpq (Path.compare_self _)
    simp only
    rw [Function.update_of_ne hne]
    exact h.entries q e hq hentry

lemma ordinary_removeDocument {tree tree' : FileTree} {p : Path} (h : tree.Ordinary known)
    (hremove : CacheStore.removeDocument tree p = .ok tree') : tree'.Ordinary known := by
  simp only [CacheStore.removeDocument] at hremove
  split at hremove
  · rename_i removed hfile
    cases hremove
    obtain ⟨hrooted, hfind⟩ := FileTree.removeFile_ok h.rooted hfile
    exact h.of_find? hrooted hfind
  · cases hremove
    exact h
  · cases hremove

lemma clear (h : s.Good known) :
    Session.Good known
      { cache := (s.cache.clear s.tree).1, tree := (s.cache.clear s.tree).2.1 } := by
  have hcleared : (∃ hits misses stores invalidations, (s.cache.clear s.tree).1
        = { directory := s.cache.directory, hits, misses, stores, invalidations })
      ∧ (s.cache.clear s.tree).2.1.Ordinary known := by
    simp only [Cache.clear]
    split
    · exact ⟨⟨_, _, _, _, rfl⟩, h.ordinary⟩
    · rename_i between hentries
      have hbetween := ordinary_removeDocument h.ordinary hentries
      split
      · exact ⟨⟨_, _, _, _, rfl⟩, hbetween⟩
      · rename_i after hgraph
        exact ⟨⟨_, _, _, _, rfl⟩, ordinary_removeDocument hbetween hgraph⟩
  obtain ⟨⟨hits, misses, stores, invalidations, hcleared⟩, hordinary⟩ := hcleared
  refine ⟨hordinary, ?_, fun _ _ hlast => (by cases hlast), ?_, ?_⟩
  · rw [hcleared]
    exact ⟨PathMap.every_empty, PathMap.every_empty, Graph.storable_empty⟩
  · intro p e _ hentry
    simp [hcleared] at hentry
  · rw [hcleared]
    exact Graph.inStep_empty

lemma reopen (h : s.Good known) {faults : Faults} {fresh : String} {now : Timestamp}
    {tree : FileTree}
    (hnow : now.Reads) (hfresh : '/' ∉ fresh.toList) (htree : tree.Ordinary known)
    (hsave : s.cache.save faults fresh now s.tree = (tree, .ok ())) :
    Session.Good known { s with cache := load tree s.cache.directory, tree } := by
  obtain ⟨hreopened, hstorable⟩ := load_save h.storable h.ordinary.rooted hnow hfresh hsave
  refine ⟨htree, hstorable, h.moments, fun p e hp hentry => ?_, hreopened.inStep⟩
  have hrel := hreopened.entries p
  rw [hentry] at hrel
  obtain ⟨e₁, hentry₁, hsame⟩ := PathMap.exists_of_rel hrel
  obtain ⟨m, hm, c', e₀, metadata, hstored, hsame₀⟩ := h.entries p e₁ hp hentry₁
  exact ⟨m, hm, c', e₀, metadata, hstored, hsame₀.trans hsame⟩

/-- **Every step keeps the invariant.** -/
theorem step (h : s.Good known) (hstep : Session.Step known s s') : s'.Good known := by
  cases hstep with
  | edit tree htree => exact ⟨htree, h.storable, h.moments, h.entries, h.inStep⟩
  | store hnow hmetadata hstore => exact h.store hnow hmetadata hstore
  | get p =>
      have hsame := sameContent_get s.cache s.tree p
      refine ⟨h.ordinary, h.storable.sameContent hsame, h.moments, ?_, ?_⟩
      · intro q e hq hentry
        rw [hsame.entries] at hentry
        exact h.entries q e hq hentry
      · show Graph.InStep _
        rw [hsame.graph]
        exact h.inStep
  | invalidate p => exact h.invalidate p
  | remove p => exact h.remove p
  | clear => exact h.clear
  | reopen hnow hfresh htree hsave => exact h.reopen hnow hfresh htree hsave

lemma steps (h : s.Good known) (hsteps : Session.Steps known s s') : s'.Good known := by
  induction hsteps with
  | refl => exact h
  | tail _ hstep ih => exact ih.step hstep

end Session.Good

/-! ## Fresh answers -/

/-- The file is in both trees, with the same content. -/
def SameFile (tree tree' : FileTree) (p : Path) : Prop :=
  ∃ bytes, tree.readBytes p = .ok bytes ∧ tree'.readBytes p = .ok bytes

/-- A file is the same where its digest is. -/
lemma sameFile_iff {known : Set ByteArray} (hknown : Set.InjOn Digest.ofBytes known)
    {tree tree' : FileTree} (h : Within known tree) (h' : Within known tree')
    {p : Path} {digest : Digest}
    (hnow : currentDigest? tree p = some digest) :
    SameFile tree tree' p ↔ currentDigest? tree' p = some digest := by
  obtain ⟨bytes, hread, hdigest⟩ := currentDigest?_eq_some_iff.1 hnow
  constructor
  · rintro ⟨found, hfound, hfound'⟩
    cases hread.symm.trans hfound
    exact currentDigest?_eq_some_iff.2 ⟨bytes, hfound', hdigest⟩
  · intro hnow'
    obtain ⟨bytes', hread', hdigest'⟩ := currentDigest?_eq_some_iff.1 hnow'
    have hsame : bytes = bytes' := hknown (h p bytes hread) (h' p bytes' hread')
      (hdigest.trans hdigest'.symm)
    rw [← hsame] at hread'
    exact ⟨bytes, hread, hread'⟩

/-- **A fresh answer.**  After any history, a fresh entry of `p` is the one of the last store of
`p`, and `p` is what that store found; and a dependency is what that store found exactly if its
record was not behind at that moment. -/
theorem fresh_answer_iff {known : Set ByteArray} (hknown : Set.InjOn Digest.ofBytes known)
    {tree : FileTree} {directory : Path} (htree : tree.Ordinary known) {s : Session}
    (hsteps : Session.Steps known (Session.cold tree directory) s) {p : Path} {e : CacheEntry}
    (hget : (s.cache.get s.tree p).2 = some e)
    (hneeds : s.cache.needsRecompilation s.tree p = false) :
    ∃ m, s.last p.normalize = some m ∧ e.output = m.output ∧ e.dependencies = m.dependencies
      ∧ SameFile s.tree m.tree p.normalize
      ∧ ∀ d ∈ e.dependencies, SameFile s.tree m.tree d ↔ ¬m.cache.Behind m.tree d := by
  have hgood := (Session.Good.cold htree directory).steps hsteps
  have hfresh := fresh?_eq_some_iff.1 (fresh?_eq_some_iff_asked.2 ⟨hget, hneeds⟩)
  obtain ⟨m, hlast, hmade⟩ := hgood.entries _ e (Path.normalize_normalize p) hfresh.entry
  obtain ⟨hwithin, hds⟩ := hgood.moments _ m hlast
  obtain ⟨c', e₀, metadata, hstored, hsame⟩ := id hmade
  refine ⟨m, hlast, ?_, hmade.dependencies, ?_, ?_⟩
  · rw [hsame.output, hstored.output_eq]
  · refine (sameFile_iff hknown hgood.ordinary.within hwithin hfresh.now).2 ?_
    rw [hsame.inputDigest]
    exact hstored.now
  · intro d hd
    obtain ⟨r, -, hstamp, hnow⟩ := hfresh.dependencies d hd
    rw [hmade.dependencies] at hd
    rw [sameFile_iff hknown hgood.ordinary.within hwithin hnow]
    rw [hsame.dependencyDigests d] at hstamp
    exact hstored.stamp_eq_iff (hds d hd) hstamp

/-! ## A dependency that is put back

The output of `b` is stored while `a`, which it needs, is on record with another content than it
has.  When `a` gets the recorded content back, `b` is fresh, although it was built with the other
one. -/

namespace PutBack

/-- Two files, the first with this content. -/
def treeWith (content : String) : FileTree := .ofTexts [("a", content), ("b", "b")]

/-- All contents of the files. -/
def known : Set ByteArray := bytesOf ["1", "2", "b"]

def now : Timestamp := ⟨"2024-01-02T03:04:05Z"⟩

/-- The cache after `a` is stored. -/
def first : Except BuildError Cache :=
  Cache.store { directory := ⟨"cache"⟩ } (treeWith "1") now ⟨"a"⟩ "A" [] none

/-- The cache after `a` is edited and `b` is stored. -/
def second : Except BuildError Cache := do
  (← first).store (treeWith "2") now ⟨"b"⟩ "B" [⟨"a"⟩] none

lemma injOn_known : Set.InjOn Digest.ofBytes known := injOn_bytesOf (by decide +kernel)

lemma ordinary_treeWith {content : String} (h : content ∈ ["1", "2", "b"])
    (hsize : content.toUTF8.size < UInt64.size) : (treeWith content).Ordinary known := by
  refine FileTree.ordinary_ofTexts ?_
  simp only [List.mem_cons, List.not_mem_nil, or_false, forall_eq_or_imp, forall_eq]
  exact ⟨⟨mem_bytesOf h, hsize⟩, mem_bytesOf (by simp), by decide⟩

lemma ordinary_one : (treeWith "1").Ordinary known := ordinary_treeWith (by simp) (by decide)

lemma ordinary_two : (treeWith "2").Ordinary known := ordinary_treeWith (by simp) (by decide)

/-- What is answered in the end. -/
lemma exists_second : ∃ c₁ c₂ e, first = .ok c₁
    ∧ c₁.store (treeWith "2") now ⟨"b"⟩ "B" [⟨"a"⟩] none = .ok c₂
    ∧ (c₂.get (treeWith "1") ⟨"b"⟩).2 = some e ∧ e.dependencies = [⟨"a"⟩]
    ∧ c₂.needsRecompilation (treeWith "1") ⟨"b"⟩ = false := by
  have hanswer : second.toOption.map (fun c =>
      ((c.get (treeWith "1") ⟨"b"⟩).2.map CacheEntry.dependencies,
        c.needsRecompilation (treeWith "1") ⟨"b"⟩)) = some (some [⟨"a"⟩], false) := by
    decide +kernel
  have hsecond : second = first >>= fun c => c.store (treeWith "2") now ⟨"b"⟩ "B" [⟨"a"⟩] none :=
    rfl
  cases hfirst : first with
  | error e =>
      rw [hsecond, hfirst] at hanswer
      cases hanswer
  | ok c₁ =>
      rw [hsecond, hfirst] at hanswer
      cases hstore : c₁.store (treeWith "2") now ⟨"b"⟩ "B" [⟨"a"⟩] none with
      | error e =>
          simp only [bind, Except.bind, hstore] at hanswer
          cases hanswer
      | ok c₂ =>
          simp only [bind, Except.bind, hstore, Except.toOption, Option.map_some, Option.some.injEq,
            Prod.mk.injEq, Option.map_eq_some_iff] at hanswer
          obtain ⟨⟨e, hget, hdependencies⟩, hneeds⟩ := hanswer
          exact ⟨c₁, c₂, e, rfl, hstore, hget, hdependencies, hneeds⟩

lemma reads_now : now.Reads := by
  show Timestamp.parse? now.text = some now
  decide +kernel

/-- A store, an edit, another store, and an edit back. -/
lemma exists_steps_back {known : Set ByteArray} {tree tree' : FileTree} (h : tree.Ordinary known)
    (h' : tree'.Ordinary known) {directory : Path} {c₁ c₂ : Cache} {p q : Path}
    {output output' : String} {ds ds' : List Path}
    (hfirst : Cache.store { directory } tree now p output ds none = .ok c₁)
    (hsecond : c₁.store tree' now q output' ds' none = .ok c₂) :
    ∃ s m, Session.Steps known (Session.cold tree directory) s ∧ s.cache = c₂ ∧ s.tree = tree
      ∧ s.last q.normalize = some m ∧ m.tree = tree' ∧ m.dependencies = ds'.map Path.normalize := by
  have hnone : ∀ v ∈ (none : Option Json), v.Noted := fun _ hv => nomatch hv
  let cold := Session.cold tree directory
  have hcold : Session.Steps known cold cold := .refl
  have hstored := hcold.tail (.store reads_now hnone hfirst)
  have hedited := hstored.tail (.edit tree' h')
  have hagain := hedited.tail (.store reads_now hnone hsecond)
  exact ⟨_, _, hagain.tail (.edit tree h), rfl, rfl, Function.update_self _ _ _, rfl, rfl⟩

/-- The history that ends with `b` fresh. -/
lemma exists_session : ∃ s e m, Session.Steps known (Session.cold (treeWith "1") ⟨"cache"⟩) s
    ∧ (s.cache.get s.tree ⟨"b"⟩).2 = some e ∧ s.cache.needsRecompilation s.tree ⟨"b"⟩ = false
    ∧ s.last (Path.normalize ⟨"b"⟩) = some m ∧ ⟨"a"⟩ ∈ e.dependencies ∧ s.tree = treeWith "1"
    ∧ m.tree = treeWith "2" := by
  obtain ⟨c₁, c₂, e, hfirst, hsecond, hget, hdependencies, hneeds⟩ := exists_second
  obtain ⟨s, m, hsteps, hcache, htree, hlast, htree', -⟩ :=
    exists_steps_back ordinary_one ordinary_two hfirst hsecond
  refine ⟨s, e, m, hsteps, ?_, ?_, hlast, ?_, htree, htree'⟩
  · rw [hcache, htree]
    exact hget
  · rw [hcache, htree]
    exact hneeds
  · rw [hdependencies]
    exact List.mem_singleton.2 rfl

/-- The content of `a` is another one when `b` is stored. -/
lemma not_sameFile : ¬SameFile (treeWith "1") (treeWith "2") ⟨"a"⟩ := by
  rintro ⟨bytes, hone, htwo⟩
  have hone' : (treeWith "1").readBytes ⟨"a"⟩ = .ok "1".toUTF8 := by decide +kernel
  have htwo' : (treeWith "2").readBytes ⟨"a"⟩ = .ok "2".toUTF8 := by decide +kernel
  rw [hone] at hone'
  rw [htwo] at htwo'
  exact absurd ((Except.ok.inj hone').symm.trans (Except.ok.inj htwo')) (by decide)

/-- Here the record of `a` was behind when `b` was stored. -/
theorem fresh_answer_behind : ∃ s p e m,
    Session.Steps known (Session.cold (treeWith "1") ⟨"cache"⟩) s
      ∧ (s.cache.get s.tree p).2 = some e ∧ s.cache.needsRecompilation s.tree p = false
      ∧ s.last p.normalize = some m ∧ ∃ d ∈ e.dependencies, m.cache.Behind m.tree d := by
  obtain ⟨s, e, m, hsteps, hget, hneeds, hlast, hmem, htree, htree'⟩ := exists_session
  obtain ⟨m', hlast', -, -, -, hsame⟩ :=
    fresh_answer_iff injOn_known ordinary_one hsteps hget hneeds
  have hm : m' = m := Option.some.inj (hlast'.symm.trans hlast)
  have hbehind : m.cache.Behind m.tree ⟨"a"⟩ := by
    by_contra hnot
    have hsame' := (hsame ⟨"a"⟩ hmem).2 (hm ▸ hnot)
    rw [hm, htree, htree'] at hsame'
    exact not_sameFile hsame'
  exact ⟨s, ⟨"b"⟩, e, m, hsteps, hget, hneeds, hlast, ⟨"a"⟩, hmem, hbehind⟩

/-- A fresh answer is not always about the dependencies that the output was built with. -/
theorem not_fresh_answer_same : ¬∀ (known : Set ByteArray) (_ : Set.InjOn Digest.ofBytes known)
    (tree : FileTree) (directory : Path) (_ : tree.Ordinary known) (s : Session)
    (_ : Session.Steps known (Session.cold tree directory) s) (p : Path) (e : CacheEntry)
    (_ : (s.cache.get s.tree p).2 = some e) (_ : s.cache.needsRecompilation s.tree p = false),
    ∃ m, s.last p.normalize = some m ∧ SameFile s.tree m.tree p.normalize
      ∧ ∀ d ∈ e.dependencies, SameFile s.tree m.tree d := by
  intro hall
  obtain ⟨s, e, m, hsteps, hget, hneeds, hlast, hmem, htree, htree'⟩ := exists_session
  obtain ⟨m', hlast', -, hsame⟩ := hall known injOn_known _ _ ordinary_one s hsteps _ e hget hneeds
  have hm : m' = m := Option.some.inj (hlast'.symm.trans hlast)
  have hsame' := hsame _ hmem
  rw [hm, htree, htree'] at hsame'
  exact not_sameFile hsame'

end PutBack

end Cache
end Rebuild
