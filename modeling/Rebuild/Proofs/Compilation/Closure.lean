import Rebuild.Proofs.Cache.Logbook
import Rebuild.Proofs.Compilation.Twice

/-!
# Nothing outdated is served

A cache looks one level deep when it is asked whether a file has to be compiled.  That a pass over
the files that a change reaches serves none of them all the same takes three parts: the reverse
edges lead from the changed files to all that need them, asking finds the changed files, and
demotion finds the others.

* **Asking.**  `Cache.Changed.not_fresh`: there is no answer about a changed file.
* **Demotion.**  `Division.Demoted.mem_misses_of_reaches`: a file that needs a miss is a miss, at
  any depth.
* **Passes.**  `divided_affected`: a pass over what a change reaches has no hits.
* **Endpoint.**  `affected_not_served`, for every history of the cache.
-/

namespace Rebuild

/-! ## Asking -/

/-- There is no entry of `p`, or the file cannot be read, or it is not what the entry is about. -/
def Cache.Changed (c : Cache) (tree : FileTree) (p : Path) : Prop :=
  c.entries[p]? = none ∨ (∃ cause, tree.readBytes p = .error cause)
    ∨ ∃ e bytes, c.entries[p]? = some e ∧ tree.readBytes p = .ok bytes
      ∧ Digest.ofBytes bytes ≠ e.inputDigest

lemma Cache.Changed.not_fresh {c : Cache} {tree : FileTree} {p : Path} (h : c.Changed tree p)
    (e : CacheEntry) : ¬c.Fresh tree p e := by
  intro hfresh
  obtain ⟨bytes, hread, hdigest⟩ := currentDigest?_eq_some_iff.1 hfresh.now
  rcases h with hnone | ⟨cause, herror⟩ | ⟨e', bytes', hentry, hread', hne⟩
  · cases hnone.symm.trans hfresh.entry
  · cases herror.symm.trans hread
  · cases hentry.symm.trans hfresh.entry
    cases hread.symm.trans hread'
    exact hne hdigest

/-! ## Demotion -/

/-- A file that needs a miss is a miss, at any depth. -/
lemma Division.Demoted.mem_misses_of_reaches {g : Graph} {d d' : Division} (h : Demoted g d d')
    (hnormal : g.Normal) {p c : Path}
    (hfiles : ∀ q, g.Reaches q c → q.normalize ∈ d'.hits.map Prod.fst ++ d'.misses)
    (hc : c.normalize ∈ d'.misses) (hpc : g.Reaches p c) : p.normalize ∈ d'.misses := by
  induction hpc using Relation.ReflTransGen.head_induction_on with
  | refl => exact hc
  | @head p q hpq hqc ih =>
      obtain ⟨hp, hq⟩ := hnormal p q hpq
      have hneeds : g.Needs p.normalize q.normalize := (Graph.needs_congr g hp hq).1 hpq
      refine (List.mem_append.1 (hfiles p (.head hpq hqc))).resolve_left fun hhit => ?_
      obtain ⟨⟨p', e⟩, hmem, hp'⟩ := List.mem_map.1 hhit
      refine h.needs _ hmem q.normalize ih ?_
      rwa [← hp'] at hneeds

namespace Compilation

/-! ## Passes -/

variable {tree : FileTree} {c : Cache} {changed : List Path} {p : Path}

lemma normalize_mem_inputs {files : List Path} (h : Reach.among files p = true) :
    p.normalize ∈ inputs files := by
  obtain ⟨q, hq, hpq⟩ := Reach.among_iff.1 h
  rw [Path.normalize_congr hpq]
  exact mem_inputs.2 (List.mem_map.2 ⟨q, hq, rfl⟩)

/-- All that a change reaches is divided among hits and misses. -/
lemma mem_divided_of_reaches {sight : Sight} {force : Bool} (hstep : c.graph.InStep) {x : Path}
    (hx : x ∈ changed) (hreach : c.graph.Reaches p x.normalize) :
    p.normalize ∈ (divided sight force c (c.affected changed)).hits.map Prod.fst
      ++ (divided sight force c (c.affected changed)).misses := by
  have hmem : x.normalize ∈ changed.map Path.normalize := List.mem_map.2 ⟨x, hx, rfl⟩
  have hfound := Graph.among_affected hstep hreach (Reach.among_of_mem hmem)
  exact (perm_divided sight force c _).mem_iff.2 (normalize_mem_inputs hfound)

/-- Whatever a change reaches is a miss. -/
lemma mem_misses_of_reaches (hstep : c.graph.InStep) (hnormal : c.graph.Normal)
    (hchanged : ∀ x ∈ changed, c.Changed tree x.normalize) {x : Path} (hx : x ∈ changed)
    (hreach : c.graph.Reaches p x.normalize) :
    p.normalize ∈ (divided (fun _ => tree) false c (c.affected changed)).misses := by
  have hdemoted := demoted_divided (fun _ => tree) false c (c.affected changed)
  have hself : x.normalize.normalize ∈
      (divided (fun _ => tree) false c (c.affected changed)).hits.map Prod.fst
        ++ (divided (fun _ => tree) false c (c.affected changed)).misses :=
    mem_divided_of_reaches hstep hx .refl
  refine hdemoted.mem_misses_of_reaches hnormal ?_ ?_ hreach
  · exact fun q hq => mem_divided_of_reaches hstep hx hq
  · refine (List.mem_append.1 hself).resolve_left fun hhit => ?_
    obtain ⟨⟨y, e⟩, hmem, hy⟩ := List.mem_map.1 hhit
    have hanswer : c.fresh? tree y = some e := (answerFor_of_hit hmem).2
    have hfresh := Cache.fresh?_eq_some_iff.1 hanswer
    rw [show y = x.normalize.normalize from hy, Path.normalize_normalize,
      Path.normalize_normalize] at hfresh
    exact (hchanged x hx).not_fresh e hfresh

/-- **A pass over what a change reaches has no hits.** -/
theorem divided_affected (hstep : c.graph.InStep) (hnormal : c.graph.Normal)
    (hchanged : ∀ x ∈ changed, c.Changed tree x.normalize) :
    (divided (fun _ => tree) false c (c.affected changed)).hits = [] := by
  have hperm := perm_divided (fun _ => tree) false c (c.affected changed)
  refine List.eq_nil_iff_forall_not_mem.2 fun h hh => ?_
  have hhit : h.1 ∈ (divided (fun _ => tree) false c (c.affected changed)).hits.map Prod.fst :=
    List.mem_map.2 ⟨h, hh, rfl⟩
  have hinput : h.1 ∈ inputs (c.affected changed) := hperm.mem_iff.1 (List.mem_append_left _ hhit)
  obtain ⟨p, hp, hnorm⟩ := List.mem_map.1 (mem_inputs.1 hinput)
  obtain ⟨x', hx', hreach⟩ := Graph.exists_reaches_of_mem_affected hstep hp
  obtain ⟨x, hx, rfl⟩ := List.mem_map.1 hx'
  have hmiss := mem_misses_of_reaches hstep hnormal hchanged hx hreach
  rw [hnorm] at hmiss
  exact List.disjoint_of_nodup_append (hperm.nodup_iff.2 (nodup_inputs _)) hhit hmiss

/-! ## Histories -/

variable {history : Cache.Logbook}

/-- What the last stores were told is in the graph. -/
lemma reaches_of_leads (h : history.cache.graph.Follows history.told) {p q : Path}
    (hp : p.normalize = p) (hreach : Relation.ReflTransGen history.Leads p q) :
    history.cache.graph.Reaches p q := by
  induction hreach using Relation.ReflTransGen.head_induction_on with
  | refl => exact .refl
  | @head p r hpr _ ih =>
      obtain ⟨ds, hds, hmem⟩ := hpr
      have hr : r.normalize = r := (h.normal p ds hds).2 r hmem
      have hneeds : history.cache.graph.Needs p r := by
        rw [h.needs p r, hp, hr]
        exact ⟨Path.compare_self p, Path.compare_self r, ds, hds, hmem⟩
      exact .head hneeds (ih hr)

/-- **Nothing outdated is served.**  After any history of the cache, a pass over what changed files
reach serves nothing, in whatever order its tasks come to their end, and every file that needs one of
them, at any depth, is compiled or has an error. -/
theorem affected_not_served {tree tree' : FileTree} {directory : Path}
    (hsteps : Cache.Logbook.Steps (Cache.Logbook.cold tree directory) history)
    {w w₁ : Workshop} (hreach : Workshop.Reachable tree' w) {changed : List Path}
    (hchanged : ∀ c ∈ changed, history.cache.Changed history.tree c.normalize)
    {s : Surroundings} {options : CompileOptions} (hforce : options.force = false)
    {report : CompileReport}
    (hends : Ends s (fun _ => history.tree) options { w with cache := history.cache }
      (history.cache.affected changed) history.tree w₁ (.ok report)) :
    report.cached = [] ∧ ∀ c ∈ changed, ∀ p : Path,
      Relation.ReflTransGen history.Leads p.normalize c.normalize →
      p.normalize ∈ report.compiled ∨ ∃ e ∈ report.errors, e.path = p.normalize := by
  have horderly := Cache.Logbook.orderly_of_steps hsteps
  have hfollows := Cache.Logbook.follows_of_steps hsteps
  have hpool : ({ w with cache := history.cache } : Workshop).pool.Sound := hreach.sound
  constructor
  · rw [cached_eq_hits hpool hends, hforce]
    show List.map Prod.fst _ = []
    rw [divided_affected horderly.inStep horderly.normal hchanged, List.map_nil]
  · intro c hc p hlead
    have hreaches := reaches_of_leads hfollows (Path.normalize_normalize p) hlead
    have hmiss := mem_misses_of_reaches horderly.inStep horderly.normal hchanged hc hreaches
    rw [Path.normalize_normalize, ← hforce] at hmiss
    exact compiled_or_error hpool hends hmiss

/-! ## A file that is edited

The file `b` needs `a`, both are stored, and then `a` is edited. -/

namespace Edited

open Cache.PutBack

/-- The workshop with this cache. -/
def workshop (c : Cache) : Workshop := { Behind.cold with cache := c }

/-- What the search adds to `seen` when it comes to `p`. -/
def found (c : Cache) (seen : List Path) (p : Path) : List Path :=
  Reach.fresh seen ((c.graph.dependents p).filter (Reach.among c.graph.allDependents))

lemma affected_eq {c : Cache} (ha : found c [⟨"a"⟩] ⟨"a"⟩ = [⟨"b"⟩])
    (hb : found c [⟨"a"⟩, ⟨"b"⟩] ⟨"b"⟩ = []) : c.affected [⟨"a"⟩] = [⟨"a"⟩, ⟨"b"⟩] := by
  have hstart : Reach.fresh [] ([(⟨"a"⟩ : Path)].map Path.normalize) = [⟨"a"⟩] := by decide
  exact Reach.order_eq_pair hstart ha hb

/-- The pass over both files. -/
def pass (c : Cache) : FileTree × Workshop × Except BuildError CompileReport :=
  runAndSave Behind.surroundings {} (treeWith "2") (workshop c) [⟨"a"⟩, ⟨"b"⟩]

lemma exists_stored : ∃ c₁ c₂ e report, first = .ok c₁
    ∧ c₁.store (treeWith "2") now ⟨"b"⟩ "B" [⟨"a"⟩] none = .ok c₂
    ∧ c₂.entries[(⟨"a"⟩ : Path)]? = some e ∧ e.inputDigest = Digest.ofBytes "1".toUTF8
    ∧ c₂.affected [⟨"a"⟩] = [⟨"a"⟩, ⟨"b"⟩] ∧ (pass c₂).2.2 = .ok report := by
  have hanswer : second.toOption.map (fun c =>
      (c.entries[(⟨"a"⟩ : Path)]?.map CacheEntry.inputDigest, found c [⟨"a"⟩] ⟨"a"⟩,
        found c [⟨"a"⟩, ⟨"b"⟩] ⟨"b"⟩, (pass c).2.2.toOption.isSome))
        = some (some (Digest.ofBytes "1".toUTF8), [⟨"b"⟩], [], true) := by
    decide +kernel
  obtain ⟨c₁, c₂, -, hfirst, hstore, -⟩ := exists_second
  have hsecond : second = .ok c₂ := by
    show (first >>= fun c => c.store (treeWith "2") now ⟨"b"⟩ "B" [⟨"a"⟩] none) = .ok c₂
    rw [hfirst]
    exact hstore
  rw [hsecond] at hanswer
  obtain ⟨hentry, ha, hb, hpass⟩ : _ ∧ _ ∧ _ ∧ _ := by
    simpa only [Prod.mk.injEq] using Option.some.inj hanswer
  obtain ⟨e, he, hdigest⟩ := Option.map_eq_some_iff.1 hentry
  cases hresult : (pass c₂).2.2 with
  | error cause =>
      rw [hresult] at hpass
      cases hpass
  | ok report => exact ⟨c₁, c₂, e, report, hfirst, hstore, he, hdigest, affected_eq ha hb, hresult⟩

lemma reachable_cold : Workshop.Reachable (treeWith "1") Behind.cold := by
  have hpool : Pool.start 1 1 = .ok Behind.pool := rfl
  exact .cold ⟨"cache"⟩ 1 _ hpool

/-- The history, and what the pass ends with. -/
lemma exists_history : ∃ history w₁ report,
    Cache.Logbook.Steps (Cache.Logbook.cold (treeWith "1") ⟨"cache"⟩) history
      ∧ history.Leads ⟨"b"⟩ ⟨"a"⟩ ∧ history.cache.Changed history.tree ⟨"a"⟩
      ∧ Ends Behind.surroundings (fun _ => history.tree) {} (workshop history.cache)
        (history.cache.affected [⟨"a"⟩]) history.tree w₁ (.ok report) := by
  obtain ⟨c₁, c₂, e, report, hfirst, hstore, hentry, hdigest, haffected, hpass⟩ := exists_stored
  obtain ⟨history, hsteps, hcache, htree, htold⟩ :=
    Cache.Logbook.exists_steps_twice (treeWith "2") hfirst hstore
  have hread : (treeWith "2").readBytes ⟨"a"⟩ = .ok "2".toUTF8 := by decide +kernel
  have hne : Digest.ofBytes "2".toUTF8 ≠ Digest.ofBytes "1".toUTF8 := by
    intro hdigest
    have hsame : "2".toUTF8 = "1".toUTF8 :=
      injOn_known (mem_bytesOf (by simp)) (mem_bytesOf (by simp)) hdigest
    exact absurd hsame (by decide)
  have hends : Ends Behind.surroundings (fun _ => treeWith "2") {} (workshop c₂) [⟨"a"⟩, ⟨"b"⟩]
      (treeWith "2") (pass c₂).2.1 (pass c₂).2.2 := ends_runAndSave reachable_cold.sound
  rw [hpass] at hends
  refine ⟨history, (pass c₂).2.1, report, hsteps, ⟨_, htold, by decide⟩,
    Or.inr (Or.inr ⟨e, "2".toUTF8, ?_, ?_, ?_⟩), ?_⟩
  · rwa [hcache]
  · rwa [htree]
  · rwa [hdigest]
  · rw [hcache, htree, haffected]
    exact hends

end Edited

/-- The output of `b` is not served after `a` was edited. -/
theorem affected_not_served_edited : ∃ (history : Cache.Logbook) (w₁ : Workshop)
    (report : CompileReport),
    Cache.Logbook.Steps (Cache.Logbook.cold (Cache.PutBack.treeWith "1") ⟨"cache"⟩) history
      ∧ history.cache.Changed history.tree ⟨"a"⟩ ∧ history.Leads ⟨"b"⟩ ⟨"a"⟩
      ∧ Ends Behind.surroundings (fun _ => history.tree) {} (Edited.workshop history.cache)
        (history.cache.affected [⟨"a"⟩]) history.tree w₁ (.ok report)
      ∧ report.cached = [] ∧ (⟨"b"⟩ ∈ report.compiled ∨ ∃ e ∈ report.errors, e.path = ⟨"b"⟩) := by
  obtain ⟨history, w₁, report, hsteps, hleads, hchanged, hends⟩ := Edited.exists_history
  have ha : Path.normalize ⟨"a"⟩ = ⟨"a"⟩ := by decide
  have hb : Path.normalize ⟨"b"⟩ = ⟨"b"⟩ := by decide
  have hall : ∀ c ∈ [(⟨"a"⟩ : Path)], history.cache.Changed history.tree c.normalize := by
    intro c hc
    rwa [List.mem_singleton.1 hc, ha]
  have hforce : ({} : CompileOptions).force = false := rfl
  obtain ⟨hcached, hserved⟩ :=
    affected_not_served hsteps Edited.reachable_cold hall hforce hends
  have hleads' : Relation.ReflTransGen history.Leads
      (Path.normalize ⟨"b"⟩) (Path.normalize ⟨"a"⟩) := by
    rw [ha, hb]
    exact .single hleads
  have hb' := hserved ⟨"a"⟩ List.mem_cons_self ⟨"b"⟩ hleads'
  rw [hb] at hb'
  exact ⟨history, w₁, report, hsteps, hchanged, hleads, hends, hcached, hb'⟩

end Compilation
end Rebuild
