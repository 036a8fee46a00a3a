import Rebuild.Proofs.Cache.Storing
import Rebuild.Proofs.Compilation.Division
import Rebuild.Proofs.Pool.Orders

/-!
# What a pass does

One lemma for each part of a pass, whoever changes the files meanwhile.

* **Reading.**  `foldl_read`: each file to compile becomes a task or an error.
* **Storing.**  `recordAll_ok`: the tasks whose outputs were stored, in order (`Stores`), are the
  compiled files; every other task has an error.
* **Serving.**  `demoted_divided`: the hits and misses come of the cache's answers, by demotion.
* **The whole pass.**  `run_eq` puts the parts together.
* **Whatever the end.**  `recordAll_induction`: what storing keeps is kept by recording outcomes.
-/

namespace Rebuild.Compilation

variable {sight : Sight} {now : Timestamp} {compiler : Compiler}

/-! ## Reading -/

/-- The task that comes of a file that can be read. -/
def taskFor (sight : Sight) (fresh : String) (p : Path) : Option Task :=
  match (sight (.read p)).readText p with
  | .ok content => some { id := fresh, path := p, content }
  | .error _ => none

/-- The error that comes of a file that cannot be read. -/
def readFault (sight : Sight) (p : Path) : Option FileError :=
  match (sight (.read p)).readText p with
  | .ok _ => none
  | .error cause => some ⟨p, "read failed: " ++ cause.message⟩

lemma path_of_taskFor {fresh : String} {p : Path} {t : Task} (h : taskFor sight fresh p = some t) :
    t.path = p := by
  rw [taskFor] at h
  split at h <;> cases h
  rfl

/-- Reading one file adds its task or its error. -/
lemma read_eq (fresh : String) (report : CompileReport) (tasks : List Task) (p : Path) :
    read sight fresh (report, tasks) p =
      ({ report with errors := report.errors ++ (readFault sight p).toList },
        tasks ++ (taskFor sight fresh p).toList) := by
  rw [read, readFault, taskFor]
  cases hread : (sight (.read p)).readText p with
  | ok content => simp
  | error cause => simp [CompileReport.addError]

lemma foldl_read {fresh : String} (ps : List Path) (report : CompileReport) (tasks : List Task) :
    ps.foldl (read sight fresh) (report, tasks) =
      ({ report with errors := report.errors ++ ps.filterMap (readFault sight) },
        tasks ++ ps.filterMap (taskFor sight fresh)) := by
  induction ps generalizing report tasks with
  | nil => simp
  | cons p ps ih =>
      rw [List.foldl_cons, read_eq, ih]
      simp only [List.append_assoc, List.filterMap_cons]
      cases readFault sight p <;> cases taskFor sight fresh p <;> rfl

/-- Each file is a task or an error. -/
lemma taskFor_or_readFault (sight : Sight) (fresh : String) (p : Path) :
    (∃ t, taskFor sight fresh p = some t) ∨ ∃ m, readFault sight p = some ⟨p, m⟩ := by
  rw [taskFor, readFault]
  cases (sight (.read p)).readText p with
  | ok content => exact Or.inl ⟨_, rfl⟩
  | error cause => exact Or.inr ⟨_, rfl⟩

/-- Without read errors, the tasks are those of all the files. -/
lemma map_path_filterMap_taskFor {fresh : String} {ps : List Path}
    (h : ps.filterMap (readFault sight) = []) :
    (ps.filterMap (taskFor sight fresh)).map Task.path = ps := by
  induction ps with
  | nil => rfl
  | cons p ps ih =>
      rw [List.filterMap_eq_nil_iff] at h
      have hrest := ih (List.filterMap_eq_nil_iff.2 fun q hq => h q (List.mem_cons_of_mem _ hq))
      rcases taskFor_or_readFault sight fresh p with ⟨t, ht⟩ | ⟨m, hm⟩
      · rw [List.filterMap_cons, ht]
        simp only [List.map_cons, hrest, path_of_taskFor ht]
      · cases (h p List.mem_cons_self).symm.trans hm

/-! ## Storing -/

/-- The cache after storing what the compiler makes of these tasks, one after the other. -/
inductive Stores (sight : Sight) (compiler : Compiler) (now : Timestamp) :
    Cache → List Task → Cache → Prop where
  | nil (c : Cache) : Stores sight compiler now c [] c
  | cons {c c' c'' : Cache} {t : Task} {ts : List Task} {output : String} {reported : List Path}
      {metadata : Option Json} (hverdict : compiler t = .compiled output reported)
      (hstore : c.store (sight (.store t.path)) now t.path output reported metadata = .ok c')
      (hrest : Stores sight compiler now c' ts c'') : Stores sight compiler now c (t :: ts) c''

/-- What happens to the outcome of a task: its output is stored, or it is an error, be it because
the file that it is about cannot be hashed any more. -/
lemma record_ok {t : Task} {outcome : Outcome} {c c' : Cache} {report report' : CompileReport}
    (hanswers : Answers compiler t outcome)
    (h : record sight now (c, report) t.path outcome = .ok (c', report')) :
    (∃ output reported metadata, compiler t = .compiled output reported
      ∧ outcome = .ok (.ofCompiled t.id output reported)
      ∧ c.store (sight (.store t.path)) now t.path output reported metadata = .ok c'
      ∧ report' = report.addCompiled t.path output)
    ∨ (c' = c ∧ (∃ m, report' = report.addError t.path m)
      ∧ ∀ result, outcome = .ok result → result.success = true →
        Cache.currentDigest? (sight (.store t.path)) t.path.normalize = none) := by
  cases hanswers with
  | turnedAway e he =>
      simp only [record, he] at h
      cases h
  | concluded hconcludes =>
      generalize hverdict : compiler t = verdict at hconcludes
      cases hconcludes with
      | compiled output reported =>
          simp only [record, TaskReport.ofCompiled, Bool.not_true, Bool.false_eq_true,
            if_false] at h
          cases hstore : c.store (sight (.store t.path)) now t.path output reported
              (some (.object [("durationMs", Json.nat 0)])) with
          | ok stored =>
              simp only [Option.getD_some, hstore] at h
              cases h
              exact Or.inl ⟨output, reported, _, rfl, rfl, hstore, rfl⟩
          | error e =>
              simp only [Option.getD_some, hstore] at h
              cases h
              refine Or.inr ⟨rfl, ⟨_, rfl⟩, fun _ _ _ => ?_⟩
              by_contra hsome
              obtain ⟨c', hok⟩ := Cache.exists_store (Option.isSome_iff_ne_none.2 hsome)
              cases hok.symm.trans hstore
      | refused message =>
          simp only [record, TaskReport.ofRefused, Bool.not_false, if_true] at h
          cases h
          refine Or.inr ⟨rfl, ⟨_, rfl⟩, ?_⟩
          rintro result hresult hsuccess
          cases hresult
          cases hsuccess
      | crashed worker message =>
          simp only [record, BuildError.isPerTask, if_true] at h
          cases h
          refine Or.inr ⟨rfl, ⟨_, rfl⟩, ?_⟩
          rintro result hresult -
          cases hresult

/-- What a report says after the outcomes of these tasks, of which `stored` were stored. -/
structure Reported (report : CompileReport) (tasks stored : List Task) (report' : CompileReport) :
    Prop where
  compiled : report'.compiled = report.compiled ++ stored.map Task.path
  cached : report'.cached = report.cached
  errors : ∀ e ∈ report.errors, e ∈ report'.errors
  all : ∀ t ∈ tasks, t ∈ stored ∨ ∃ e ∈ report'.errors, e.path = t.path
  none_lost : report'.errors = [] → stored = tasks
  outputs : ∀ p, (∀ t ∈ tasks, compare t.path p ≠ .eq) → report'.outputs[p]? = report.outputs[p]?

lemma recordAll_ok {tasks : List Task} {outcomes : List Outcome} {c c' : Cache}
    {report report' : CompileReport} (hanswers : List.Forall₂ (Answers compiler) tasks outcomes)
    (h : recordAll sight now (c, report) ((tasks.map Task.path).zip outcomes) = (c', .ok report')) :
    ∃ stored, stored.Sublist tasks ∧ Stores sight compiler now c stored c'
      ∧ Reported report tasks stored report' := by
  induction hanswers generalizing c report with
  | nil =>
      simp only [List.map_nil, List.zip_nil_left, recordAll, Prod.mk.injEq, Except.ok.injEq] at h
      obtain ⟨rfl, rfl⟩ := h
      exact ⟨[], List.Sublist.refl _, .nil c, by simp, rfl, fun _ h => h, by simp, fun _ => rfl,
        fun _ _ => rfl⟩
  | @cons t outcome tasks outcomes hanswer _ ih =>
      simp only [List.map_cons, List.zip_cons_cons, recordAll] at h
      cases hrecord : record sight now (c, report) t.path outcome with
      | error e =>
          simp only [hrecord] at h
          cases h
      | ok next =>
          obtain ⟨c₁, report₁⟩ := next
          simp only [hrecord] at h
          obtain ⟨stored, hsub, hstores, hreported⟩ := ih h
          rcases record_ok hanswer hrecord with
            ⟨output, reported, metadata, hverdict, -, hstore, rfl⟩ | ⟨rfl, ⟨m, rfl⟩, -⟩
          · refine ⟨t :: stored, hsub.cons_cons t, .cons hverdict hstore hstores, ?_,
              hreported.cached,
              hreported.errors, ?_, ?_, ?_⟩
            · rw [hreported.compiled]
              simp [CompileReport.addCompiled]
            · intro u hu
              rcases List.mem_cons.1 hu with rfl | hu
              · exact Or.inl List.mem_cons_self
              · exact (hreported.all u hu).imp_left (List.mem_cons_of_mem _)
            · intro hnone
              rw [hreported.none_lost hnone]
            · intro p hp
              rw [hreported.outputs p fun u hu => hp u (List.mem_cons_of_mem _ hu)]
              exact PathMap.getElem?_put_of_ne _ _ (hp t List.mem_cons_self)
          · have hmem : ⟨t.path, m⟩ ∈ report'.errors :=
              hreported.errors _ (by simp [CompileReport.addError])
            refine ⟨stored, hsub.cons t, hstores, hreported.compiled, hreported.cached,
              ?_, ?_, ?_, ?_⟩
            · intro e he
              exact hreported.errors e (by simp [CompileReport.addError, he])
            · intro u hu
              rcases List.mem_cons.1 hu with rfl | hu
              · exact Or.inr ⟨_, hmem, rfl⟩
              · exact hreported.all u hu
            · intro hnone
              rw [hnone] at hmem
              cases hmem
            · intro p hp
              exact hreported.outputs p fun u hu => hp u (List.mem_cons_of_mem _ hu)

/-! ## The whole pass -/

variable {s : Surroundings} {options : CompileOptions} {w : Workshop} {files : List Path}

/-- The files of a pass as it divides them, with those demoted that need a file to compile. -/
def divided (sight : Sight) (force : Bool) (c : Cache) (files : List Path) : Division :=
  (divide sight force c files).2

lemma divide_fst (sight : Sight) (force : Bool) (c : Cache) (files : List Path) :
    c.SameContent (divide sight force c files).1 :=
  (foldl_lookup sight force (inputs files) c {}).1

/-- What is known of the division: it comes of the cache's answers, by demotion. -/
lemma demoted_divided (sight : Sight) (force : Bool) (c : Cache) (files : List Path) :
    Division.Demoted c.graph
      ⟨hitsAmong sight force c (inputs files), missesAmong sight force c (inputs files)⟩
      (divided sight force c files) := by
  obtain ⟨hsame, hdivision⟩ :=
    foldl_lookup sight force (inputs files) c {}
  have hdemoted := Division.demoted_demote c.graph
    ⟨hitsAmong sight force c (inputs files), missesAmong sight force c (inputs files)⟩
  rw [divided, divide]
  simp only [hsame.graph, hdivision, List.nil_append]
  exact hdemoted

/-- Without misses there is nothing to demote. -/
lemma divided_of_no_misses {force : Bool} {c : Cache}
    (h : missesAmong sight force c (inputs files) = []) :
    divided sight force c files = ⟨hitsAmong sight force c (inputs files), []⟩ := by
  obtain ⟨-, hdivision⟩ := foldl_lookup sight force (inputs files) c {}
  rw [divided, divide]
  simp only [hdivision, h, List.nil_append]
  exact Division.demote_of_no_misses _ _

/-- A file of the division is an input, and a hit or a miss, not both. -/
lemma perm_divided (sight : Sight) (force : Bool) (c : Cache) (files : List Path) :
    ((divided sight force c files).hits.map Prod.fst
      ++ (divided sight force c files).misses).Perm (inputs files) :=
  (demoted_divided sight force c files).perm.trans (perm_hitsAmong c (inputs files))

/-- A hit has the entry that the cache answers with. -/
lemma answerFor_of_hit {force : Bool} {c : Cache} {p : Path} {e : CacheEntry}
    (h : (p, e) ∈ (divided sight force c files).hits) :
    p ∈ inputs files ∧ answerFor sight force c p = some e :=
  mem_hitsAmong.1 ((demoted_divided sight force c files).hits.subset h)

lemma foldl_addCached (hits : List Hit) (report : CompileReport) :
    hits.foldl (fun r (p, entry) => r.addCached p entry.output) report =
      { report with
        cached := report.cached ++ hits.map Prod.fst
        outputs := hits.foldl (fun m h => m.put h.1 h.2.output) report.outputs } := by
  induction hits generalizing report with
  | nil => simp
  | cons h hits ih =>
      rw [List.foldl_cons, ih]
      simp [CompileReport.addCached]

/-- The report before the tasks are run. -/
def served (sight : Sight) (d : Division) : CompileReport where
  cached := d.hits.map Prod.fst
  errors := d.misses.filterMap (readFault sight)
  outputs := d.hits.foldl (fun m h => m.put h.1 h.2.output) ∅

/-- The tasks of a division. -/
def tasksOf (sight : Sight) (fresh : String) (d : Division) : List Task :=
  d.misses.filterMap (taskFor sight fresh)

/-- The pass, part by part. -/
lemma run_eq (s : Surroundings) (sight : Sight) (options : CompileOptions) (w : Workshop)
    (files : List Path) :
    run s sight options w files =
      let d := divided sight options.force w.cache files
      let tasks := tasksOf sight s.fresh d
      let executed := w.pool.executeWithLimit (fun t => some (s.compiler t))
        (options.concurrency.getD w.concurrency) tasks
      let recorded := recordAll sight s.now
        ((divide sight options.force w.cache files).1, served sight d)
        ((tasks.map Task.path).zip executed.2)
      ({ w with cache := recorded.1, pool := executed.1 }, recorded.2) := by
  rw [run, divided]
  rcases divide sight options.force w.cache files with ⟨c, d⟩
  simp only [foldl_addCached, foldl_read, List.nil_append]
  rfl

/-! ## Whatever the end -/

/-- What storing keeps is kept by recording outcomes, whether or not that comes to its end. -/
lemma recordAll_induction {P : Cache → Prop}
    (hstore : ∀ (c c' : Cache) (tree : FileTree) (now : Timestamp) (p : Path) (output : String)
      (ds : List Path) (metadata : Option Json),
      P c → c.store tree now p output ds metadata = .ok c' → P c')
    (outcomes : List (Path × Outcome)) (state : Cache × CompileReport) (h : P state.1) :
    P (recordAll sight now state outcomes).1 := by
  have hrecord : ∀ (state next : Cache × CompileReport) (p : Path) (outcome : Outcome),
      record sight now state p outcome = .ok next → P state.1 → P next.1 := by
    intro state next p outcome hok hstate
    cases outcome with
    | error e =>
        simp only [record] at hok
        split_ifs at hok
        cases hok
        exact hstate
    | ok result =>
        simp only [record] at hok
        split_ifs at hok
        · cases hok
          exact hstate
        · split at hok
          · rename_i stored hstored
            cases hok
            exact hstore _ _ _ _ _ _ _ _ hstate hstored
          · cases hok
            exact hstate
  induction outcomes generalizing state with
  | nil => exact h
  | cons o outcomes ih =>
      obtain ⟨p, outcome⟩ := o
      rw [recordAll]
      cases hok : record sight now state p outcome with
      | ok next => exact ih next (hrecord state next p outcome hok h)
      | error e => exact h

/-- A pass leaves a sound pool behind, however it ends. -/
lemma sound_run (h : w.pool.Sound) : (run s sight options w files).1.pool.Sound := by
  rw [run_eq]
  exact (Pool.executeWithLimit_spec h s.compiler _ _).1

end Rebuild.Compilation
