import Rebuild.Proofs.Compilation.Ending
import Rebuild.Proofs.Files.Places

/-!
# Building twice

A pass over files that nobody touches should leave nothing for the next pass to do.  It does so for
most caches, and `second_pass_serves_all_iff` says for which: a store stamps a dependency with the
digest on record, so the output of a file is outdated as soon as it is stored if the record of a
dependency was behind the dependency and the dependency itself was compiled too late or not at all.

* **Stores.**  `Stores.fresh_iff`: which of the stored outputs are fresh after the last store.
* **Passes.**  `serves_all_iff`: a pass serves all its files exactly when all of them are fresh.
* **Histories.**  `Workshop.Reachable`: what passes, in any order of their tasks, and edits make of a
  cold cache and a new pool.
-/

namespace Rebuild

/-! ## Histories -/

/-- What passes make of a cold cache and a new pool, while files are edited between them.  The tasks
of a pass come to their end in any order, and it may fail. -/
inductive Workshop.Reachable : FileTree → Workshop → Prop where
  | cold {size capacity : Nat} {pool : Pool} (directory : Path) (concurrency : Nat)
      (tree : FileTree) (hpool : Pool.start size capacity = .ok pool) :
      Reachable tree { cache := { directory }, pool, concurrency }
  | edit {tree : FileTree} {w : Workshop} (tree' : FileTree) (h : Reachable tree w) :
      Reachable tree' w
  | pass {tree tree' : FileTree} {w w' : Workshop} {s : Surroundings} {options : CompileOptions}
      {files : List Path} {result : Except BuildError CompileReport} (h : Reachable tree w)
      (hends : Compilation.EndsIn s options w files tree tree' w' result) : Reachable tree' w'

namespace Workshop.Reachable

variable {tree : FileTree} {w : Workshop}

lemma sound (h : Reachable tree w) : w.pool.Sound := by
  induction h with
  | cold directory concurrency tree hpool => exact Pool.sound_start hpool
  | edit tree' _ ih => exact ih
  | pass _ hends ih => exact hends.ends.sound ih

lemma normal (h : Reachable tree w) : w.cache.Normal := by
  induction h with
  | cold directory concurrency tree hpool =>
      intro p e _ hentry
      simp at hentry
  | edit tree' _ ih => exact ih
  | pass _ hends ih =>
      refine hends.ends.induction ?_ ?_ ih
      · intro c c' hsame hnormal p e hp hentry
        rw [hsame.entries] at hentry
        exact hnormal p e hp hentry
      · exact fun c c' _ _ _ _ _ _ hnormal hstore => hnormal.store hstore

end Workshop.Reachable

/-! ## Stores -/

namespace Cache

/-- A fresh answer goes by the digests of the file and of its dependencies only. -/
lemma Fresh.congr_tree {c : Cache} {tree tree' : FileTree} {p : Path} {e : CacheEntry}
    (h : c.Fresh tree p e) (hp : currentDigest? tree' p = currentDigest? tree p)
    (hds : ∀ d ∈ e.dependencies, currentDigest? tree' d = currentDigest? tree d) :
    c.Fresh tree' p e where
  entry := h.entry
  now := hp.trans h.now
  record := h.record
  dependencies d hd := by
    obtain ⟨r, hr, hstamp, hnow⟩ := h.dependencies d hd
    exact ⟨r, hr, hstamp, (hds d hd).trans hnow⟩

end Cache

namespace Compilation

/-- The dependencies that a compiler reports about a task, as they are stored. -/
def reportedBy (compiler : Compiler) (t : Task) : List Path :=
  match compiler t with
  | .compiled _ ds => ds.map Path.normalize
  | _ => []

lemma normalize_of_mem_reportedBy {compiler : Compiler} {t : Task} {d : Path}
    (h : d ∈ reportedBy compiler t) : d.normalize = d := by
  rw [reportedBy] at h
  split at h
  · exact Path.normalize_of_mem_map h
  · cases h

namespace Stores

variable {tree : FileTree} {compiler : Compiler} {now : Timestamp} {c c' : Cache} {ts : List Task}

/-- Stores of other files leave an entry alone. -/
lemma entry_of_not_mem (h : Stores (fun _ => tree) compiler now c ts c')
    (hts : ∀ t ∈ ts, t.path.normalize = t.path) {q : Path} (hq : q.normalize = q)
    (hmem : q ∉ ts.map Task.path) : c'.entries[q]? = c.entries[q]? := by
  induction h with
  | nil c => rfl
  | @cons c c₁ c₂ t ts output ds metadata hverdict hstore hrest ih =>
      obtain ⟨e, hstored⟩ := Cache.exists_stored hstore
      simp only [List.map_cons, List.mem_cons, not_or] at hmem
      rw [ih (fun u hu => hts u (List.mem_cons_of_mem _ hu)) hmem.2, hstored.entries q hq, if_neg]
      rw [hts t List.mem_cons_self]
      exact hmem.1

/-- Stores of other files spoil no fresh entry. -/
lemma fresh_of_not_mem (h : Stores (fun _ => tree) compiler now c ts c')
    (hts : ∀ t ∈ ts, t.path.normalize = t.path) {q : Path} {e : CacheEntry} (hq : q.normalize = q)
    (hmem : q ∉ ts.map Task.path) (hds : ∀ d ∈ e.dependencies, d.normalize = d)
    (hfresh : c.Fresh tree q e) : c'.Fresh tree q e := by
  induction h with
  | nil c => exact hfresh
  | @cons c c₁ c₂ t ts output ds metadata hverdict hstore hrest ih =>
      obtain ⟨e', hstored⟩ := Cache.exists_stored hstore
      simp only [List.map_cons, List.mem_cons, not_or] at hmem
      refine ih (fun u hu => hts u (List.mem_cons_of_mem _ hu)) hmem.2 ?_
      refine hstored.fresh_of_ne hfresh hq ?_ hds
      rw [hts t List.mem_cons_self]
      exact hmem.1

/-- Which stored outputs are fresh after the last store: those for which every dependency whose
record was behind was stored before. -/
lemma fresh_iff (h : Stores (fun _ => tree) compiler now c ts c')
    (hts : ∀ t ∈ ts, t.path.normalize = t.path) (hnodup : (ts.map Task.path).Nodup)
    (hread : ∀ t ∈ ts, ∀ d ∈ reportedBy compiler t, (Cache.currentDigest? tree d).isSome) :
    (∀ t ∈ ts, ∃ e, c'.Fresh tree t.path e) ↔
      ∀ before t after, ts = before ++ t :: after → ∀ d ∈ reportedBy compiler t,
        d ∉ before.map Task.path → ¬c.Behind tree d := by
  induction h with
  | nil c => simp
  | @cons c c₁ c₂ t ts output ds metadata hverdict hstore hrest ih =>
      obtain ⟨e, hstored⟩ := Cache.exists_stored hstore
      have ht := hts t List.mem_cons_self
      have hts' : ∀ u ∈ ts, u.path.normalize = u.path :=
        fun u hu => hts u (List.mem_cons_of_mem _ hu)
      obtain ⟨hnot, hnodup'⟩ := List.nodup_cons.1 hnodup
      have hds : reportedBy compiler t = ds.map Path.normalize := by
        rw [reportedBy]
        rw [hverdict]
      rw [ht, ← hds] at hstored
      have hnormal : ∀ d ∈ reportedBy compiler t, d.normalize = d :=
        fun d hd => normalize_of_mem_reportedBy hd
      -- The entry of `t` is not touched again, so it is fresh at the end if it is fresh at once.
      have hfirst : (∃ e', c₂.Fresh tree t.path e') ↔
          ∀ d ∈ reportedBy compiler t, ¬c.Behind tree d := by
        constructor
        · rintro ⟨e', hfresh⟩
          have hentry := hfresh.entry
          rw [hrest.entry_of_not_mem hts' ht hnot, hstored.entries _ ht, if_pos rfl] at hentry
          cases hentry
          exact hstored.not_behind_of_fresh hfresh hnormal fun _ _ => rfl
        · intro hbehind
          have hfresh := hstored.fresh ht hnormal (hread t List.mem_cons_self) hbehind
          refine ⟨e, hrest.fresh_of_not_mem hts' ht hnot ?_ hfresh⟩
          rw [hstored.dependencies_eq]
          exact hnormal
      have hothers := ih hts' hnodup' fun u hu => hread u (List.mem_cons_of_mem _ hu)
      rw [List.forall_mem_cons, hfirst, hothers]
      constructor
      · rintro ⟨hhead, htail⟩ before u after hsplit d hd hbefore
        cases before with
        | nil =>
            cases hsplit
            exact hhead d hd
        | cons v before =>
            obtain ⟨rfl, rfl⟩ := List.cons.inj hsplit
            simp only [List.map_cons, List.mem_cons, not_or] at hbefore
            have hlater := htail before u after rfl d hd hbefore.2
            rw [hstored.behind_iff (normalize_of_mem_reportedBy hd)] at hlater
            exact fun hbehind => hlater ⟨hbehind, hbefore.1⟩
      · intro hall
        refine ⟨fun d hd => hall [] t ts rfl d hd (by simp), ?_⟩
        rintro before u after rfl d hd hbefore hbehind
        obtain ⟨hbehind, hne⟩ := (hstored.behind_iff (normalize_of_mem_reportedBy hd)).1 hbehind
        refine hall (t :: before) u after rfl d hd ?_ hbehind
        simp only [List.map_cons, List.mem_cons, not_or]
        exact ⟨hne, hbefore⟩

end Stores

/-! ## Passes -/

variable {s : Surroundings} {options : CompileOptions} {tree : FileTree} {w : Workshop}
  {files : List Path}

/-- The pass ends well, compiles nothing and serves all its files. -/
def ServesAll (files : List Path) (result : Except BuildError CompileReport) : Prop :=
  ∃ report, result = .ok report ∧ report.compiled = [] ∧ report.cached = inputs files

/-- **A pass serves all its files exactly when all of them are fresh**, in whatever order its tasks
come to their end. -/
theorem serves_all_iff (hpool : w.pool.Sound) (hforce : options.force = false) {w' : Workshop}
    {result : Except BuildError CompileReport}
    (hends : Ends s (fun _ => tree) options w files tree w' result) :
    ServesAll files result ↔ ∀ p ∈ inputs files, ∃ e, w.cache.Fresh tree p e := by
  have hanswer : ∀ {p : Path} {e : CacheEntry}, p ∈ inputs files →
      (answerFor (fun _ => tree) options.force w.cache p = some e ↔ w.cache.Fresh tree p e) := by
    intro p e hp
    have hfresh : w.cache.fresh? tree p = some e ↔ w.cache.Fresh tree p.normalize e :=
      Cache.fresh?_eq_some_iff
    rw [normalize_of_mem_inputs hp] at hfresh
    rwa [hforce]
  constructor
  · rintro ⟨report, rfl, -, hcached⟩ p hp
    rw [← hcached, cached_eq_hits hpool hends] at hp
    obtain ⟨⟨q, e⟩, hhit, rfl⟩ := List.mem_map.1 hp
    obtain ⟨hq, hfound⟩ := answerFor_of_hit hhit
    exact ⟨e, (hanswer hq).1 hfound⟩
  · intro hall
    have hnone : missesAmong (fun _ => tree) options.force w.cache (inputs files) = [] := by
      refine List.eq_nil_iff_forall_not_mem.2 fun p hp => ?_
      obtain ⟨hinput, hmiss⟩ := mem_missesAmong.1 hp
      obtain ⟨e, hfresh⟩ := hall p hinput
      cases hmiss.symm.trans ((hanswer hinput).2 hfresh)
    have hdivided := divided_of_no_misses hnone
    obtain ⟨report, hresult, hcompiled, -, hcached⟩ :=
      hends.of_no_misses (congrArg Division.misses hdivided)
    refine ⟨report, hresult, hcompiled, ?_⟩
    rw [hcached, hdivided]
    exact map_fst_hitsAmong hnone

/-! ## The second pass -/

/-- A file of the pass, or a dependency that the cache has for one. -/
def Concerns (c : Cache) (files : List Path) (p : Path) : Prop :=
  p ∈ inputs files ∨ ∃ q ∈ inputs files, ∃ e, c.entries[q]? = some e ∧ p ∈ e.dependencies

/-- The dependencies that a compiler reports which sees the path and the content of a file only. -/
def dependenciesIn (compile : Path → String → Verdict) (tree : FileTree) (p : Path) : List Path :=
  match tree.readText p with
  | .ok content =>
    match compile p content with
    | .compiled _ ds => ds.map Path.normalize
    | _ => []
  | .error _ => []

lemma dependenciesIn_eq_reportedBy {compile : Path → String → Verdict} {fresh : String} {t : Task}
    {p : Path} (h : taskFor (fun _ => tree) fresh p = some t) :
    dependenciesIn compile tree p = reportedBy (fun t => compile t.path t.content) t := by
  rw [taskFor] at h
  rw [dependenciesIn, reportedBy]
  cases hread : tree.readText p with
  | ok content =>
      simp only [hread] at h
      cases h
      rfl
  | error cause =>
      simp only [hread] at h
      cases h

/-- What is fresh on one tree is fresh on another that has the same files, as far as they matter. -/
lemma exists_fresh_congr {tree' : FileTree} {c : Cache}
    (hquiet : ∀ p, Concerns c files p → tree'.find? p = tree.find? p) {p : Path}
    (hp : p ∈ inputs files) : (∃ e, c.Fresh tree' p e) ↔ ∃ e, c.Fresh tree p e := by
  have hfile : Cache.currentDigest? tree' p = Cache.currentDigest? tree p :=
    Cache.currentDigest?_congr (hquiet p (Or.inl hp))
  have hds : ∀ e, c.entries[p]? = some e → ∀ d ∈ e.dependencies,
      Cache.currentDigest? tree' d = Cache.currentDigest? tree d :=
    fun e he d hd => Cache.currentDigest?_congr (hquiet d (Or.inr ⟨p, hp, e, he, hd⟩))
  constructor
  · rintro ⟨e, hfresh⟩
    exact ⟨e, hfresh.congr_tree hfile.symm fun d hd => (hds e hfresh.entry d hd).symm⟩
  · rintro ⟨e, hfresh⟩
    exact ⟨e, hfresh.congr_tree hfile (hds e hfresh.entry)⟩

/-- After a pass without errors, what was served is fresh still, so what was stored decides. -/
lemma all_fresh_iff_stored {w₁ : Workshop} {c : Cache} {stored : List Task}
    (hforce : options.force = false) (hnormal : w.cache.Normal) (hsame : w.cache.SameContent c)
    (hstores : Stores (fun _ => tree) s.compiler s.now c stored w₁.cache)
    (hstored : stored.map Task.path
      = (divided (fun _ => tree) options.force w.cache files).misses) :
    (∀ p ∈ inputs files, ∃ e, w₁.cache.Fresh tree p e)
      ↔ ∀ t ∈ stored, ∃ e, w₁.cache.Fresh tree t.path e := by
  have hperm := perm_divided (fun _ => tree) options.force w.cache files
  rw [← hstored] at hperm
  have hinput : ∀ t ∈ stored, t.path ∈ inputs files := fun t ht =>
    hperm.mem_iff.1 (List.mem_append_right _ (List.mem_map.2 ⟨t, ht, rfl⟩))
  refine ⟨fun h t ht => h _ (hinput t ht), fun h p hp => ?_⟩
  rcases List.mem_append.1 (hperm.mem_iff.2 hp) with hhit | hmiss
  · obtain ⟨⟨q, e⟩, hhit', rfl⟩ := List.mem_map.1 hhit
    obtain ⟨-, hanswer⟩ := answerFor_of_hit hhit'
    rw [hforce] at hanswer
    have hfresh := Cache.fresh?_eq_some_iff.1 hanswer
    rw [normalize_of_mem_inputs hp] at hfresh
    have hq := normalize_of_mem_inputs hp
    refine ⟨e, hstores.fresh_of_not_mem (fun t ht => normalize_of_mem_inputs (hinput t ht)) hq ?_
      (hnormal q e hq hfresh.entry) (hsame.fresh_iff.2 hfresh)⟩
    have hnodup := hperm.nodup_iff.2 (nodup_inputs files)
    exact fun hmem => List.disjoint_of_nodup_append hnodup hhit hmem
  · obtain ⟨t, ht, rfl⟩ := List.mem_map.1 hmiss
    exact h t ht

/-- Tasks and their paths have the same prefixes. -/
lemma forall_split_map_iff {stored : List Task} {P : List Path → Path → Prop} :
    (∀ before t after, stored = before ++ t :: after → P (before.map Task.path) t.path)
      ↔ ∀ before p after, stored.map Task.path = before ++ p :: after → P before p := by
  constructor
  · rintro h before p after hsplit
    obtain ⟨ts, us, rfl, rfl, hrest⟩ := List.map_eq_append_iff.1 hsplit
    obtain ⟨t, us', rfl, rfl, -⟩ := List.map_eq_cons_iff.1 hrest
    exact h ts t us' rfl
  · rintro h before t after rfl
    exact h _ _ (after.map Task.path) (by simp)

/-- **Building twice.**  A pass without errors, during and after which nobody touches its files, is
followed by a pass that serves all of them from the cache, exactly if the first pass compiled no
file that needs a file whose record was behind and which it had not compiled before.  This holds in
whatever orders the tasks of both passes come to their end. -/
theorem second_pass_serves_all_iff {s' : Surroundings} {options' : CompileOptions}
    {tree₁ : FileTree} {w₁ : Workshop} {report : CompileReport} {compile : Path → String → Verdict}
    (hcompile : s.compiler = fun t => compile t.path t.content) (hforce : options.force = false)
    (hforce' : options'.force = false) (hreach : Workshop.Reachable tree w)
    (hfirst : EndsIn s options w files tree tree₁ w₁ (.ok report)) (herrors : report.errors = [])
    (hread : ∀ p ∈ report.compiled, ∀ d ∈ dependenciesIn compile tree p, tree.isFile d = true)
    (hquiet : ∀ p, Concerns w₁.cache files p → tree₁.find? p = tree.find? p) :
    (∃ tree₂ w₂ result, EndsIn s' options' w₁ files tree₁ tree₂ w₂ result)
      ∧ ∀ tree₂ w₂ result, EndsIn s' options' w₁ files tree₁ tree₂ w₂ result →
        (ServesAll files result ↔ ∀ before p after, report.compiled = before ++ p :: after →
          ∀ d ∈ dependenciesIn compile tree p, d ∉ before → ¬w.cache.Behind tree d) := by
  have hpool₁ : w₁.pool.Sound := hfirst.ends.sound hreach.sound
  refine ⟨⟨_, _, _, endsIn_runAndSave hpool₁⟩, fun tree₂ w₂ result hsecond => ?_⟩
  obtain ⟨c, stored, hsame, hsub, hstores, hreported⟩ := ends_spec hreach.sound hfirst.ends
  have hcompiled : report.compiled = stored.map Task.path := hreported.compiled
  have hmisses := compiled_eq_misses hreach.sound hfirst.ends herrors
  have hperm := perm_divided (fun _ => tree) options.force w.cache files
  rw [← hmisses, hcompiled] at hperm
  have hinput : ∀ t ∈ stored, t.path ∈ inputs files := fun t ht =>
    hperm.mem_iff.1 (List.mem_append_right _ (List.mem_map.2 ⟨t, ht, rfl⟩))
  have hdeps : ∀ t ∈ stored, dependenciesIn compile tree t.path = reportedBy s.compiler t := by
    intro t ht
    obtain ⟨p, -, htask⟩ := List.mem_filterMap.1 (hsub.subset ht)
    rw [hcompile, path_of_taskFor htask]
    exact dependenciesIn_eq_reportedBy htask
  have hreadable : ∀ t ∈ stored, ∀ d ∈ reportedBy s.compiler t,
      (Cache.currentDigest? tree d).isSome := by
    intro t ht d hd
    rw [← hdeps t ht] at hd
    refine Cache.isSome_currentDigest? (hread t.path ?_ d hd)
    rw [hcompiled]
    exact List.mem_map.2 ⟨t, ht, rfl⟩
  have hnodup := (List.nodup_append.1 (hperm.nodup_iff.2 (nodup_inputs files))).2.1
  have hbehind : ∀ d, c.Behind tree d ↔ w.cache.Behind tree d := by
    intro d
    simp only [Cache.Behind, hsame.records]
  calc _ ↔ ∀ p ∈ inputs files, ∃ e, w₁.cache.Fresh tree₁ p e :=
        serves_all_iff hpool₁ hforce' hsecond.ends
    _ ↔ ∀ p ∈ inputs files, ∃ e, w₁.cache.Fresh tree p e :=
        forall₂_congr fun p hp => exists_fresh_congr hquiet hp
    _ ↔ ∀ t ∈ stored, ∃ e, w₁.cache.Fresh tree t.path e :=
        all_fresh_iff_stored hforce hreach.normal hsame hstores (hcompiled.symm.trans hmisses)
    _ ↔ ∀ before t after, stored = before ++ t :: after → ∀ d ∈ reportedBy s.compiler t,
          d ∉ before.map Task.path → ¬c.Behind tree d :=
        hstores.fresh_iff (fun t ht => normalize_of_mem_inputs (hinput t ht)) hnodup hreadable
    _ ↔ ∀ before t after, stored = before ++ t :: after → ∀ d ∈ dependenciesIn compile tree t.path,
          d ∉ before.map Task.path → ¬w.cache.Behind tree d := by
        refine forall₄_congr fun before t after hsplit => ?_
        simp only [hbehind, hdeps t (by simp [hsplit])]
    _ ↔ _ := by
        rw [hcompiled]
        exact forall_split_map_iff (P := fun before p =>
          ∀ d ∈ dependenciesIn compile tree p, d ∉ before → ¬w.cache.Behind tree d)

/-! ## A record that is behind

The file `b` needs `a`.  After `a` was compiled and edited, a pass over `b` alone stamps `b` with
the digest that `a` had, and the next pass compiles `b` again. -/

namespace Behind

/-- A compiler that finds out that `b` needs `a`. -/
def compile (p : Path) (content : String) : Verdict :=
  .compiled content (if p = ⟨"b"⟩ then [⟨"a"⟩] else [])

/-- Two files, with this content of `a`. -/
def treeWith (a : String) : FileTree := .ofTexts [("a", a), ("b", "b")]

def surroundings : Surroundings where
  compiler t := compile t.path t.content
  now := ⟨"2024-01-02T03:04:05Z"⟩
  fresh := "0"

def pool : Pool where
  size := 1
  capacity := 1
  workers := [{ id := 0 }]
  nextWorker := 1

def cold : Workshop where
  cache := { directory := ⟨"cache"⟩ }
  pool := pool
  concurrency := 1

/-- After `a` was compiled. -/
def warm : Workshop := (runAndSave surroundings {} (treeWith "old") cold [⟨"a"⟩]).2.1

/-- After `a` was edited and `b` compiled. -/
def after : FileTree × Workshop × Except BuildError CompileReport :=
  runAndSave surroundings {} (treeWith "new") warm [⟨"b"⟩]

/-- Once more. -/
def again : FileTree × Workshop × Except BuildError CompileReport :=
  runAndSave surroundings {} after.1 after.2.1 [⟨"b"⟩]

lemma reachable_warm : Workshop.Reachable (treeWith "new") warm := by
  have hpool : Pool.start 1 1 = .ok pool := rfl
  have hcold : Workshop.Reachable (treeWith "old") cold := .cold ⟨"cache"⟩ 1 (treeWith "old") hpool
  exact .edit _ (.pass hcold (endsIn_runAndSave hcold.sound))

/-- The histories evaluated: the report, the tables and the files. -/
lemma evaluated :
    after.2.2.toOption.map (fun r => (r.compiled, r.errors)) = some ([⟨"b"⟩], [])
      ∧ after.2.1.cache.entries[(⟨"b"⟩ : Path)]?.map CacheEntry.dependencies = some [⟨"a"⟩]
      ∧ after.1.find? ⟨"a"⟩ = (treeWith "new").find? ⟨"a"⟩
      ∧ after.1.find? ⟨"b"⟩ = (treeWith "new").find? ⟨"b"⟩
      ∧ after.2.1.cache.fresh? after.1 ⟨"b"⟩ = none
      ∧ (warm.cache.records[(⟨"a"⟩ : Path)]?).any (fun r =>
        Cache.currentDigest? (treeWith "new") ⟨"a"⟩ != some r.digest) = true := by
  decide +kernel

lemma endsIn_after : ∃ report,
    EndsIn surroundings {} warm [⟨"b"⟩] (treeWith "new") after.1 after.2.1 (.ok report)
      ∧ report.compiled = [⟨"b"⟩] ∧ report.errors = [] := by
  have hreport := evaluated.1
  have hends : EndsIn surroundings {} warm [⟨"b"⟩] (treeWith "new") after.1 after.2.1 after.2.2 :=
    endsIn_runAndSave reachable_warm.sound
  cases hresult : after.2.2 with
  | error e =>
      rw [hresult] at hreport
      cases hreport
  | ok report =>
      rw [hresult] at hreport hends
      obtain ⟨hcompiled, herrors⟩ := Prod.mk.inj (Option.some.inj hreport)
      exact ⟨report, hends, hcompiled, herrors⟩

lemma dependencies_b : dependenciesIn compile (treeWith "new") ⟨"b"⟩ = [⟨"a"⟩] := by decide +kernel

lemma isFile_a : (treeWith "new").isFile ⟨"a"⟩ = true := by decide +kernel

lemma inputs_b : inputs [⟨"b"⟩] = [⟨"b"⟩] := by decide

/-- Saving the stores touches neither file. -/
lemma quiet (p : Path) (h : Concerns after.2.1.cache [⟨"b"⟩] p) :
    after.1.find? p = (treeWith "new").find? p := by
  obtain ⟨-, hentry, ha, hb, -⟩ := evaluated
  rw [Concerns] at h
  rw [inputs_b] at h
  rcases h with hp | ⟨q, hq, e, he, hp⟩
  · rwa [List.mem_singleton.1 hp]
  · rw [List.mem_singleton.1 hq] at he
    rw [he] at hentry
    rw [Option.some.inj hentry, List.mem_singleton] at hp
    rwa [hp]

lemma behind_a : warm.cache.Behind (treeWith "new") ⟨"a"⟩ := by
  obtain ⟨-, -, -, -, -, hstale⟩ := evaluated
  cases hrecord : warm.cache.records[(⟨"a"⟩ : Path)]? with
  | none =>
      rw [hrecord] at hstale
      cases hstale
  | some r =>
      rw [hrecord] at hstale
      exact ⟨r, hrecord, bne_iff_ne.1 hstale⟩

lemma readable {report : CompileReport} (h : report.compiled = [⟨"b"⟩]) :
    ∀ p ∈ report.compiled, ∀ d ∈ dependenciesIn compile (treeWith "new") p,
      (treeWith "new").isFile d = true := by
  intro p hp d hd
  rw [h, List.mem_singleton] at hp
  rw [hp, dependencies_b, List.mem_singleton] at hd
  rw [hd]
  exact isFile_a

end Behind

/-- After the pass over `b`, another one can end, and in no order does it serve `b`. -/
theorem second_pass_compiles_again :
    (∃ tree₂ w₂ result, EndsIn Behind.surroundings {} Behind.after.2.1 [⟨"b"⟩] Behind.after.1 tree₂
        w₂ result)
      ∧ ∀ tree₂ w₂ result, EndsIn Behind.surroundings {} Behind.after.2.1 [⟨"b"⟩] Behind.after.1
        tree₂ w₂ result → ¬ServesAll [⟨"b"⟩] result := by
  obtain ⟨report, hends, hcompiled, herrors⟩ := Behind.endsIn_after
  refine ⟨⟨_, _, _, endsIn_runAndSave (hends.ends.sound Behind.reachable_warm.sound)⟩, ?_⟩
  intro tree₂ w₂ result hsecond
  have hiff := (second_pass_serves_all_iff rfl rfl rfl Behind.reachable_warm hends herrors
    (Behind.readable hcompiled) Behind.quiet).2 tree₂ w₂ result hsecond
  refine (not_congr hiff).2 fun hall => ?_
  have ha : (⟨"a"⟩ : Path) ∈ dependenciesIn Behind.compile (Behind.treeWith "new") ⟨"b"⟩ := by
    rw [Behind.dependencies_b]
    exact List.mem_singleton_self _
  exact hall [] ⟨"b"⟩ [] hcompiled ⟨"a"⟩ ha List.not_mem_nil Behind.behind_a

/-- Not every pass that ends without errors is followed by one that serves all its files. -/
theorem not_second_pass_serves_all :
    ¬∀ (compile : Path → String → Verdict) (s : Surroundings) (tree tree₁ tree₂ : FileTree)
      (w w₁ w₂ : Workshop) (files : List Path) (report : CompileReport)
      (result : Except BuildError CompileReport),
      s.compiler = (fun t => compile t.path t.content) → Workshop.Reachable tree w →
      EndsIn s {} w files tree tree₁ w₁ (.ok report) → report.errors = [] →
      (∀ p ∈ report.compiled, ∀ d ∈ dependenciesIn compile tree p, tree.isFile d = true) →
      (∀ p, Concerns w₁.cache files p → tree₁.find? p = tree.find? p) →
      EndsIn s {} w₁ files tree₁ tree₂ w₂ result → ServesAll files result := by
  intro hall
  obtain ⟨report, hends, hcompiled, herrors⟩ := Behind.endsIn_after
  have hpool : Behind.after.2.1.pool.Sound := hends.ends.sound Behind.reachable_warm.sound
  have hsecond : EndsIn Behind.surroundings {} Behind.after.2.1 [⟨"b"⟩] Behind.after.1
      Behind.again.1 Behind.again.2.1 Behind.again.2.2 := endsIn_runAndSave hpool
  have hserves := hall Behind.compile Behind.surroundings _ _ _ _ _ _ _ report _ rfl
    Behind.reachable_warm hends herrors (Behind.readable hcompiled) Behind.quiet hsecond
  have hb : (⟨"b"⟩ : Path) ∈ inputs [⟨"b"⟩] := by
    rw [Behind.inputs_b]
    exact List.mem_singleton_self _
  obtain ⟨e, hfresh⟩ := (serves_all_iff hpool rfl hsecond.ends).1 hserves ⟨"b"⟩ hb
  rw [← normalize_of_mem_inputs hb] at hfresh
  obtain ⟨-, -, -, -, hnone, -⟩ := Behind.evaluated
  cases hnone.symm.trans (Cache.fresh?_eq_some_iff.2 hfresh)

end Compilation
end Rebuild
