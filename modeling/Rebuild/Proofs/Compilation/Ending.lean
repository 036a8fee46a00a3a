import Rebuild.Proofs.Compilation.Pass

/-!
# How a pass can end

The workers of a pass come to their verdicts in no fixed order, and whether a task finds room in the
queue may depend on it.  So a pass can end in as many ways as there are orders in which its tasks come
to their end.

* **Orders.**  `Ends`, and `EndsIn` with the files that are there after saving.  `runAndSave` takes one
  of the orders (`endsIn_runAndSave`).
* **A pass that ends well.**  `ends_spec` says all that is known of it, whoever changes the files
  meanwhile.  Every file to compile is compiled or has an error (`compiled_or_error`).
* **A pass with nothing to compile.**  `Ends.of_no_misses`: it serves all its files.
* **Whatever the end.**  `Ends.induction`: what storing keeps is kept by a pass.
-/

namespace Rebuild.Compilation

/-! ## Orders -/

section

variable (s : Surroundings) (sight : Sight) (options : CompileOptions) (w : Workshop)
  (files : List Path)

/-- The tasks of a pass. -/
def passTasks : List Task := tasksOf sight s.fresh (divided sight options.force w.cache files)

/-- The tasks of a pass before any of them is submitted. -/
def flight : Flight where
  pool := w.pool
  remaining := passTasks s sight options w files
  limit := max (options.concurrency.getD w.concurrency) 1
  ordered := true

/-- The workshop after a pass whose tasks have come to their end, and its report; nothing is saved
yet. -/
def conclude (f : Flight) : Workshop × Except BuildError CompileReport :=
  let recorded := recordAll sight s.now
    ((divide sight options.force w.cache files).1,
      served sight (divided sight options.force w.cache files))
    (((passTasks s sight options w files).map Task.path).zip f.outcomes)
  ({ w with cache := recorded.1, pool := f.pool }, recorded.2)

/-- How a pass ends after saving what it has compiled. -/
def saveResult (s : Surroundings) (tree : FileTree) (w : Workshop) :
    Except BuildError CompileReport → Except BuildError CompileReport
  | .error e => .error e
  | .ok report =>
    if report.compiled = [] then .ok report
    else (w.cache.save s.faults s.fresh s.now tree).2.map fun _ => report

/-- The files after saving what a pass has compiled. -/
def saveTree (s : Surroundings) (tree : FileTree) (w : Workshop) :
    Except BuildError CompileReport → FileTree
  | .error _ => tree
  | .ok report =>
    if report.compiled = [] then tree else (w.cache.save s.faults s.fresh s.now tree).1

/-- The pass can leave the workshop `w'` and end with this result.  Its tasks come to their end in
any order, and `tree` is what is there when it saves. -/
def Ends (tree : FileTree) (w' : Workshop) (result : Except BuildError CompileReport) : Prop :=
  ∃ f, Flight.Steps s.compiler (flight s sight options w files) f ∧ f.Ended
    ∧ (conclude s sight options w files f).1 = w'
    ∧ saveResult s tree w' (conclude s sight options w files f).2 = result

/-- The pass over files that nobody else changes can end with this result, the workshop `w'` and
these files. -/
def EndsIn (tree tree' : FileTree) (w' : Workshop) (result : Except BuildError CompileReport) :
    Prop :=
  ∃ f, Flight.Steps s.compiler (flight s (fun _ => tree) options w files) f ∧ f.Ended
    ∧ (conclude s (fun _ => tree) options w files f).1 = w'
    ∧ saveResult s tree w' (conclude s (fun _ => tree) options w files f).2 = result
    ∧ saveTree s tree w' (conclude s (fun _ => tree) options w files f).2 = tree'

/-- A pass that runs by itself. -/
lemma run_eq_conclude : run s sight options w files = conclude s sight options w files
    ((flight s sight options w files).finish fun t => some (s.compiler t)) := run_eq _ _ _ _ _

end

variable {s : Surroundings} {sight : Sight} {options : CompileOptions} {w w' : Workshop}
  {files : List Path} {tree tree' : FileTree} {result : Except BuildError CompileReport}
  {report : CompileReport}

lemma EndsIn.ends (h : EndsIn s options w files tree tree' w' result) :
    Ends s (fun _ => tree) options w files tree w' result := by
  obtain ⟨f, hsteps, hended, hw, hresult, -⟩ := h
  exact ⟨f, hsteps, hended, hw, hresult⟩

lemma carries_flight (h : w.pool.Sound) :
    (flight s sight options w files).Carries s.compiler (passTasks s sight options w files) :=
  Flight.carries_start h s.compiler (Nat.lt_of_lt_of_le Nat.zero_lt_one (Nat.le_max_right _ _)) _

/-- Saving comes after the pass, and leaves the workshop as it is. -/
lemma runAndSave_eq (s : Surroundings) (options : CompileOptions) (tree : FileTree) (w : Workshop)
    (files : List Path) :
    runAndSave s options tree w files =
      let ran := run s (fun _ => tree) options w files
      (saveTree s tree ran.1 ran.2, ran.1, saveResult s tree ran.1 ran.2) := by
  rw [runAndSave]
  rcases run s (fun _ => tree) options w files with ⟨w', e | report⟩
  · rfl
  · simp only [saveTree, saveResult]
    split_ifs
    · rfl
    · rcases w'.cache.save s.faults s.fresh s.now tree with ⟨tree', _ | _⟩ <;> rfl

/-- **A pass that runs by itself** takes one of the orders. -/
lemma endsIn_runAndSave (h : w.pool.Sound) :
    EndsIn s options w files tree (runAndSave s options tree w files).1
      (runAndSave s options tree w files).2.1 (runAndSave s options tree w files).2.2 := by
  rw [runAndSave_eq, run_eq_conclude]
  exact ⟨_, Flight.steps_finish s.compiler rfl, (carries_flight h).finish.2, rfl, rfl, rfl⟩

lemma ends_runAndSave (h : w.pool.Sound) :
    Ends s (fun _ => tree) options w files tree (runAndSave s options tree w files).2.1
      (runAndSave s options tree w files).2.2 := (endsIn_runAndSave h).ends

/-- Saving only ever makes a result worse. -/
lemma eq_of_saveResult (h : saveResult s tree w result = .ok report) : result = .ok report := by
  cases result with
  | error e => cases h
  | ok found =>
      rw [saveResult] at h
      split_ifs at h
      · exact h
      · cases hsave : (w.cache.save s.faults s.fresh s.now tree).2 with
        | error e =>
            rw [hsave] at h
            cases h
        | ok _ =>
            rw [hsave] at h
            exact h

/-! ## A pass that ends well -/

/-- **A pass that ends well.**  It serves the hits of the division; the misses that could be read
are its tasks, and those whose outputs were stored are compiled, in order; every other miss has an
error. -/
theorem ends_spec (hpool : w.pool.Sound)
    (h : Ends s sight options w files tree w' (.ok report)) :
    ∃ c stored, w.cache.SameContent c
      ∧ stored.Sublist (passTasks s sight options w files)
      ∧ Stores sight s.compiler s.now c stored w'.cache
      ∧ Reported (served sight (divided sight options.force w.cache files))
        (passTasks s sight options w files) stored report := by
  obtain ⟨f, hsteps, hended, rfl, hresult⟩ := h
  have hanswers := ((carries_flight hpool).steps hsteps).answers hended
  obtain ⟨stored, hsub, hstores, hreported⟩ :=
    recordAll_ok hanswers (Prod.ext rfl (eq_of_saveResult hresult))
  exact ⟨_, stored, divide_fst sight options.force w.cache files, hsub, hstores, hreported⟩

/-- Every miss of a pass that ends well is compiled or has an error. -/
theorem compiled_or_error (hpool : w.pool.Sound)
    (h : Ends s sight options w files tree w' (.ok report)) {p : Path}
    (hp : p ∈ (divided sight options.force w.cache files).misses) :
    p ∈ report.compiled ∨ ∃ e ∈ report.errors, e.path = p := by
  obtain ⟨c, stored, -, -, -, hreported⟩ := ends_spec hpool h
  rcases taskFor_or_readFault sight s.fresh p with ⟨t, ht⟩ | ⟨m, hm⟩
  · have htask : t ∈ passTasks s sight options w files := List.mem_filterMap.2 ⟨p, hp, ht⟩
    rw [← path_of_taskFor ht]
    refine (hreported.all t htask).imp_left fun hstored => ?_
    rw [hreported.compiled]
    exact List.mem_append_right _ (List.mem_map.2 ⟨t, hstored, rfl⟩)
  · exact Or.inr ⟨⟨p, m⟩, hreported.errors _ (List.mem_filterMap.2 ⟨p, hp, hm⟩), rfl⟩

/-- A pass without errors compiles exactly the misses, in order. -/
theorem compiled_eq_misses (hpool : w.pool.Sound)
    (h : Ends s sight options w files tree w' (.ok report)) (herrors : report.errors = []) :
    report.compiled = (divided sight options.force w.cache files).misses := by
  obtain ⟨c, stored, -, -, -, hreported⟩ := ends_spec hpool h
  have hread :
      (divided sight options.force w.cache files).misses.filterMap (readFault sight) = [] := by
    refine List.eq_nil_iff_forall_not_mem.2 fun e he => ?_
    have hmem := hreported.errors e he
    rw [herrors] at hmem
    cases hmem
  rw [hreported.compiled, hreported.none_lost herrors]
  exact map_path_filterMap_taskFor hread

/-- What a pass that ends well serves are the hits. -/
lemma cached_eq_hits (hpool : w.pool.Sound)
    (h : Ends s sight options w files tree w' (.ok report)) :
    report.cached = (divided sight options.force w.cache files).hits.map Prod.fst := by
  obtain ⟨c, stored, -, -, -, hreported⟩ := ends_spec hpool h
  exact hreported.cached

/-- **A pass with nothing to compile** ends well, in whatever order, and serves all its files. -/
theorem Ends.of_no_misses (h : Ends s sight options w files tree w' result)
    (hmisses : (divided sight options.force w.cache files).misses = []) :
    ∃ report, result = .ok report ∧ report.compiled = [] ∧ report.errors = []
      ∧ report.cached = (divided sight options.force w.cache files).hits.map Prod.fst := by
  have htasks : passTasks s sight options w files = [] := by
    rw [passTasks, tasksOf, hmisses]
    rfl
  have herrors : (served sight (divided sight options.force w.cache files)).errors = [] := by
    rw [served, hmisses]
    rfl
  obtain ⟨f, -, -, -, rfl⟩ := h
  rw [conclude]
  simp only [htasks, List.map_nil, List.zip_nil_left, recordAll]
  exact ⟨_, rfl, rfl, herrors, rfl⟩

/-! ## Whatever the end -/

/-- What holds of the cache before a pass and is kept by storing holds after the pass, however it
ends. -/
lemma Ends.induction {P : Cache → Prop} (hends : Ends s sight options w files tree w' result)
    (hsame : ∀ c c' : Cache, c.SameContent c' → P c → P c')
    (hstore : ∀ (c c' : Cache) (tree : FileTree) (now : Timestamp) (p : Path) (output : String)
      (ds : List Path) (metadata : Option Json),
      P c → c.store tree now p output ds metadata = .ok c' → P c')
    (h : P w.cache) : P w'.cache := by
  obtain ⟨f, -, -, rfl, -⟩ := hends
  exact recordAll_induction hstore _ _ (hsame _ _ (divide_fst sight options.force w.cache files) h)

/-- A pass leaves a sound pool behind, however it ends. -/
lemma Ends.sound (hends : Ends s sight options w files tree w' result) (h : w.pool.Sound) :
    w'.pool.Sound := by
  obtain ⟨f, hsteps, -, rfl, -⟩ := hends
  exact ((carries_flight h).steps hsteps).sound

end Rebuild.Compilation
