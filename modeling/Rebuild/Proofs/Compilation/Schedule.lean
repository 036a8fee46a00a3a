import Rebuild.Proofs.Compilation.Interleaving
import Rebuild.Proofs.Files.Places

/-!
# A pass as a schedule

`Compilation.run` is one way in which the steps of a pass can come: between any two of its looks the
files are edited to what the pass sees next (`Sight`), and nothing else happens.  `steps_run` says
so, with one lemma for each stage.

Two such schedules show that a served output can be wrong: `not_served_output_right`.
-/

namespace Rebuild.Compilation

section

variable {compile : Path → String → Verdict} {known : Set ByteArray}

/-- In the scene, the pass `i` is at this stage, and the other passes are as before. -/
structure Scene.At (s before : Scene) (i : Nat) (cache : Cache) (pass : Pass) : Prop where
  cache : s.cache = cache
  pass : s.passes i = some pass
  others : ∀ j, j ≠ i → s.passes j = before.passes j

lemma Scene.at_put {s before : Scene} {i : Nat} {pass : Pass} {cache : Cache}
    (hcache : s.cache = cache)
    (h : ∀ j, j ≠ i → s.passes j = before.passes j) : (s.put i pass).At before i cache pass where
  cache := hcache
  pass := by simp [Scene.put]
  others j hj := by
    rw [← h j hj]
    simp [Scene.put, hj]

variable {sight : Sight} {force : Bool} {i : Nat} {before : Scene}

/-- Looking up all files, with an edit before each look. -/
lemma steps_lookup (compile : Path → String → Verdict)
    (hsight : ∀ look, Within known (sight look)) (todo : List Path) {s : Scene} {cache : Cache}
    {d : Division} {glances : List Glance}
    (h : s.At before i cache ⟨force, .looking todo d, glances⟩) :
    ∃ s' glances', Steps compile known s s'
      ∧ s'.At before i (todo.foldl (lookup sight force) (cache, d)).1
        ⟨force, .looking [] (todo.foldl (lookup sight force) (cache, d)).2, glances'⟩
      ∧ (∀ p, p ∉ todo → glanceAt glances' p = glanceAt glances p)
      ∧ (todo.Nodup → ∀ p ∈ todo, ∃ g, glanceAt glances' p = some g
        ∧ g.tree = sight (.lookup p)) := by
  induction todo generalizing s cache d glances with
  | nil => exact ⟨s, glances, .refl, h, fun _ _ => rfl, by simp⟩
  | cons p todo ih =>
      obtain ⟨rfl, hpass, hothers⟩ := h
      let looked := lookup sight force (s.cache, d) p
      let next : Scene := Scene.put { s with tree := sight (.lookup p), cache := looked.1 } i
        ⟨force, .looking todo looked.2, ⟨p, sight (.lookup p), s.deposits⟩ :: glances⟩
      have hedit : Step compile known s { s with tree := sight (.lookup p) } := .edit _ (hsight _)
      have hlookup : Step compile known { s with tree := sight (.lookup p) } next := .lookup hpass
      have hnext : next.At before i looked.1
          ⟨force, .looking todo looked.2, ⟨p, sight (.lookup p), s.deposits⟩ :: glances⟩ :=
        Scene.at_put rfl hothers
      obtain ⟨s', glances', hsteps, hat, hkept, hfound⟩ := ih hnext
      refine ⟨s', glances', .head hedit (.head hlookup hsteps), hat, ?_, ?_⟩
      · intro q hq
        simp only [List.mem_cons, not_or] at hq
        rw [hkept q hq.2, glanceAt_cons, if_neg (Ne.symm hq.1)]
      · intro hnodup q hq
        obtain ⟨hnot, hnodup'⟩ := List.nodup_cons.1 hnodup
        rcases List.mem_cons.1 hq with rfl | hq
        · refine ⟨⟨q, sight (.lookup q), s.deposits⟩, ?_, rfl⟩
          rw [hkept q hnot, glanceAt_cons, if_pos rfl]
        · exact hfound hnodup' q hq

/-- Demoting hits. -/
lemma steps_demote (compile : Path → String → Verdict) (known : Set ByteArray) {s : Scene}
    {cache : Cache} {d : Division} {glances : List Glance}
    (h : s.At before i cache ⟨force, .looking [] d, glances⟩) :
    ∃ s', Steps compile known s s' ∧ s'.At before i cache ⟨force,
      .reading (d.demote cache.graph).misses (serve (d.demote cache.graph)) [], glances⟩ := by
  obtain ⟨rfl, hpass, hothers⟩ := h
  exact ⟨_, .single (.demote hpass), Scene.at_put rfl hothers⟩

/-- Reading all files that are to be compiled, with an edit before each read. -/
lemma steps_read (compile : Path → String → Verdict)
    (hsight : ∀ look, Within known (sight look)) (fresh : String) (todo : List Path)
    {s : Scene} {cache : Cache} {report : CompileReport} {tasks : List Task} {glances : List Glance}
    (h : s.At before i cache ⟨force, .reading todo report tasks, glances⟩) :
    ∃ s', Steps compile known s s' ∧ s'.At before i cache
      ⟨force, .reading [] (todo.foldl (read sight fresh) (report, tasks)).1
        (todo.foldl (read sight fresh) (report, tasks)).2, glances⟩ := by
  induction todo generalizing s report tasks with
  | nil => exact ⟨s, .refl, h⟩
  | cons p todo ih =>
      obtain ⟨rfl, hpass, hothers⟩ := h
      let result := read sight fresh (report, tasks) p
      let next : Scene := Scene.put { s with tree := sight (.read p) } i
        ⟨force, .reading todo result.1 result.2, glances⟩
      have hedit : Step compile known s { s with tree := sight (.read p) } := .edit _ (hsight _)
      have hread : Step compile known { s with tree := sight (.read p) } next := .read fresh hpass
      have hnext : next.At before i s.cache ⟨force, .reading todo result.1 result.2, glances⟩ :=
        Scene.at_put rfl hothers
      obtain ⟨s', hsteps, hat⟩ := ih hnext
      exact ⟨s', .head hedit (.head hread hsteps), hat⟩

/-- Handing in the tasks and hearing about the first ones, in order. -/
lemma steps_hear {tasks : List Task} {outcomes : List Outcome}
    (hanswers : List.Forall₂ (Answers (compilerOf compile)) tasks outcomes)
    (done : List (Task × Option Outcome)) {s : Scene} {cache : Cache} {report : CompileReport}
    {glances : List Glance}
    (h : s.At before i cache ⟨force, .working (done ++ tasks.map (·, none)) report, glances⟩) :
    ∃ s', Steps compile known s s' ∧ s'.At before i cache
      ⟨force, .working (done ++ (tasks.zip outcomes).map fun x => (x.1, some x.2)) report,
        glances⟩ := by
  induction hanswers generalizing s done with
  | nil => exact ⟨s, .refl, h⟩
  | @cons t outcome tasks outcomes hanswer _ ih =>
      obtain ⟨rfl, hpass, hothers⟩ := h
      let next : Scene := s.put i
        ⟨force, .working (done ++ (t, some outcome) :: tasks.map (·, none)) report, glances⟩
      have hwork : Step compile known s next := .work hpass hanswer
      have hnext : next.At before i s.cache
          ⟨force, .working ((done ++ [(t, some outcome)]) ++ tasks.map (·, none)) report,
            glances⟩ := by
        rw [List.append_assoc]
        exact Scene.at_put rfl hothers
      obtain ⟨s', hsteps, hat⟩ := ih (done ++ [(t, some outcome)]) hnext
      rw [List.append_assoc] at hat
      exact ⟨s', .head hwork hsteps, hat⟩

/-- Handing in the tasks, hearing about all of them, and collecting the outcomes. -/
lemma steps_work (known : Set ByteArray) {tasks : List Task} {outcomes : List Outcome}
    (hanswers : List.Forall₂ (Answers (compilerOf compile)) tasks outcomes) {s : Scene}
    {cache : Cache} {report : CompileReport} {glances : List Glance}
    (h : s.At before i cache ⟨force, .reading [] report tasks, glances⟩) :
    ∃ s', Steps compile known s s'
      ∧ s'.At before i cache ⟨force, .storing (tasks.zip outcomes) report, glances⟩ := by
  obtain ⟨rfl, hpass, hothers⟩ := h
  let submitted : Scene := s.put i ⟨force, .working (tasks.map (·, none)) report, glances⟩
  have hsubmit : Step compile known s submitted := .submit hpass
  have hat : submitted.At before i s.cache
      ⟨force, .working ([] ++ tasks.map (·, none)) report, glances⟩ := Scene.at_put rfl hothers
  obtain ⟨s₁, hsteps, hcache₁, hpass₁, hothers₁⟩ := steps_hear hanswers [] hat
  exact ⟨_, .head hsubmit (hsteps.tail (.collect hpass₁)), Scene.at_put hcache₁ hothers₁⟩

/-- Storing all outcomes, with an edit before each store. -/
lemma steps_store (compile : Path → String → Verdict)
    (hsight : ∀ look, Within known (sight look)) (now : Timestamp)
    (todo : List (Task × Outcome)) {s : Scene} {cache : Cache} {report : CompileReport}
    {glances : List Glance} (h : s.At before i cache ⟨force, .storing todo report, glances⟩) :
    ∃ s', Steps compile known s s' ∧ s'.At before i
      (recordAll sight now (cache, report) (todo.map fun x => (x.1.path, x.2))).1
      ⟨force, .ended (recordAll sight now (cache, report) (todo.map fun x => (x.1.path, x.2))).2,
        glances⟩ := by
  induction todo generalizing s cache report with
  | nil =>
      obtain ⟨rfl, hpass, hothers⟩ := h
      exact ⟨_, .single (.finish hpass), Scene.at_put rfl hothers⟩
  | cons x todo ih =>
      obtain ⟨t, outcome⟩ := x
      obtain ⟨rfl, hpass, hothers⟩ := h
      simp only [List.map_cons, recordAll]
      cases hrecord : record sight now (s.cache, report) t.path outcome with
      | error e => exact ⟨_, .single (.fail e hpass), Scene.at_put rfl hothers⟩
      | ok result =>
          obtain ⟨cache, report'⟩ := result
          let tree := sight (.store t.path)
          let next : Scene := Scene.put { s with
            tree
            cache
            deposits := (deposit? tree t outcome).toList ++ s.deposits } i
            ⟨force, .storing todo report', glances⟩
          have hsame : record (fun _ => tree) now (s.cache, report) t.path outcome
              = .ok (cache, report') := by
            rw [← hrecord]
            cases outcome <;> rfl
          have hedit : Step compile known s { s with tree } := .edit _ (hsight _)
          have hstore : Step compile known { s with tree } next := .store now hpass hsame
          have hnext : next.At before i cache ⟨force, .storing todo report', glances⟩ :=
            Scene.at_put rfl hothers
          obtain ⟨s', hsteps, hat⟩ := ih hnext
          exact ⟨s', .head hedit (.head hstore hsteps), hat⟩

/-- **A pass is a schedule.**  From any scene, a new pass can take the steps of `run`: it ends with
the same cache and the same result, and its looks are those of the sight. -/
theorem steps_run {s : Scene} (hnew : s.passes i = none) (sur : Surroundings)
    (hcompiler : sur.compiler = compilerOf compile) (hsight : ∀ look, Within known (sight look))
    {w : Workshop} (hcache : w.cache = s.cache) (hpool : w.pool.Sound) (options : CompileOptions)
    (files : List Path) :
    ∃ s' glances, Steps compile known s s'
      ∧ s'.At s i (run sur sight options w files).1.cache
        ⟨options.force, .ended (run sur sight options w files).2, glances⟩
      ∧ ∀ p ∈ inputs files, ∃ g, glanceAt glances p = some g ∧ g.tree = sight (.lookup p) := by
  let pass : Pass := { force := options.force, stage := .looking (inputs files) {} }
  have hbegin : Step compile known s (s.put i pass) := .begin i options.force files hnew
  have hat : (s.put i pass).At s i s.cache pass := Scene.at_put rfl fun _ _ => rfl
  obtain ⟨s₁, glances, hsteps₁, hat₁, -, hfound⟩ := steps_lookup compile hsight (inputs files) hat
  obtain ⟨s₂, hsteps₂, hat₂⟩ := steps_demote compile known hat₁
  obtain ⟨s₃, hsteps₃, hat₃⟩ := steps_read compile hsight sur.fresh _ hat₂
  have hanswers := fun tasks =>
    (Pool.executeWithLimit_spec hpool sur.compiler (options.concurrency.getD w.concurrency) tasks).2
  simp only [hcompiler] at hanswers
  obtain ⟨s₄, hsteps₄, hat₄⟩ := steps_work known (hanswers _) hat₃
  obtain ⟨s₅, hsteps₅, hat₅⟩ := steps_store compile hsight sur.now _ hat₄
  have hsteps := (((hsteps₁.trans hsteps₂).trans hsteps₃).trans hsteps₄).trans hsteps₅
  refine ⟨s₅, glances, .head hbegin hsteps, ?_, hfound (nodup_inputs files)⟩
  have hzip : ∀ (tasks : List Task) (outcomes : List Outcome),
      (tasks.zip outcomes).map (fun x => (x.1.path, x.2)) = (tasks.map Task.path).zip outcomes := by
    intro tasks outcomes
    rw [List.zip_map_left]
    rfl
  rw [hzip] at hat₅
  simp only [run, divide, hcache, hcompiler]
  exact hat₅

/-! ## A store that is overtaken by an edit

A pass reads `a`, and `a` is edited before its output is stored.  The next pass finds `a` as the
store found it, and serves what was made of the old content. -/

end

namespace Overtaken

/-- The output is the content. -/
def compile (_ : Path) (content : String) : Verdict := .compiled content []

/-- One file, with this content. -/
def treeWith (content : String) : FileTree := .ofTexts [("a", content)]

/-- All contents of the file. -/
def known : Set ByteArray := bytesOf ["old", "new"]

def surroundings : Surroundings where
  compiler := compilerOf compile
  now := ⟨"2024-01-02T03:04:05Z"⟩
  fresh := "0"

def cold : Workshop where
  cache := { directory := ⟨"cache"⟩ }
  pool := { size := 1, capacity := 1, workers := [{ id := 0 }], nextWorker := 1 }
  concurrency := 1

/-- The file is edited after it is read and before its output is stored. -/
def edited : Sight
  | .store _ => treeWith "new"
  | _ => treeWith "old"

/-- The pass whose store comes too late. -/
def first : Workshop × Except BuildError CompileReport :=
  run surroundings edited {} cold [⟨"a"⟩]

/-- The pass that follows. -/
def second : Workshop × Except BuildError CompileReport :=
  run surroundings (fun _ => treeWith "new") {} first.1 [⟨"a"⟩]

lemma injOn_known : Set.InjOn Digest.ofBytes known := injOn_bytesOf (by decide +kernel)

lemma within_treeWith {content : String} (h : content ∈ ["old", "new"]) :
    Within known (treeWith content) := by
  refine FileTree.within_ofTexts fun f hf => ?_
  rw [List.mem_singleton.1 hf]
  exact mem_bytesOf h

lemma within_edited (look : Look) : Within known (edited look) := by
  cases look with
  | store p => exact within_treeWith (by simp)
  | lookup p => exact within_treeWith (by simp)
  | read p => exact within_treeWith (by simp)

lemma second_eq : ∃ report, second.2 = .ok report ∧ report.cached = [⟨"a"⟩]
    ∧ report.outputs[(⟨"a"⟩ : Path)]? = some "old" := by
  have hreport : second.2.toOption.map (fun r => (r.cached, r.outputs[(⟨"a"⟩ : Path)]?))
      = some ([⟨"a"⟩], some "old") := by decide +kernel
  cases hsecond : second.2 with
  | error e =>
      rw [hsecond] at hreport
      cases hreport
  | ok report =>
      rw [hsecond] at hreport
      obtain ⟨hcached, houtput⟩ := Prod.mk.inj (Option.some.inj hreport)
      exact ⟨report, rfl, hcached, houtput⟩

/-- The scene after both passes. -/
lemma exists_scene : ∃ s pass report g,
    Steps compile known (Scene.cold (treeWith "old") ⟨"cache"⟩) s ∧ s.passes 1 = some pass
      ∧ pass.stage = .ended (.ok report) ∧ report.cached = [⟨"a"⟩]
      ∧ report.outputs[(⟨"a"⟩ : Path)]? = some "old" ∧ glanceAt pass.glances ⟨"a"⟩ = some g
      ∧ g.tree = treeWith "new" := by
  have hstart : Pool.start 1 1 = .ok cold.pool := rfl
  have hpool : cold.pool.Sound := Pool.sound_start hstart
  have hcompiler : surroundings.compiler = compilerOf compile := rfl
  have hlater : ∀ look, Within known ((fun _ => treeWith "new" : Sight) look) :=
    fun _ => within_treeWith (by simp)
  obtain ⟨s₁, _, hsteps₁, hat₁, -⟩ :=
    steps_run (s := Scene.cold (treeWith "old") ⟨"cache"⟩) (i := 0)
    rfl surroundings hcompiler within_edited (w := cold) rfl hpool {} [⟨"a"⟩]
  have hnew : s₁.passes 1 = none := hat₁.others 1 (by decide)
  have hpool₁ : first.1.pool.Sound := sound_run hpool
  obtain ⟨s₂, glances, hsteps₂, hat₂, hglances⟩ := steps_run hnew surroundings hcompiler hlater
    (w := first.1) hat₁.cache.symm hpool₁ {} [⟨"a"⟩]
  obtain ⟨report, hsecond, hcached, houtput⟩ := second_eq
  obtain ⟨g, hglance, htree⟩ := hglances ⟨"a"⟩ (by decide)
  refine ⟨s₂, _, report, g, hsteps₁.trans hsteps₂, hat₂.pass, ?_, hcached, houtput, hglance, htree⟩
  show Stage.ended second.2 = .ended (.ok report)
  rw [hsecond]

lemma readText_new : (treeWith "new").readText ⟨"a"⟩ = .ok "new" := by
  have hread : ((treeWith "new").readText ⟨"a"⟩).toOption = some "new" := by decide +kernel
  cases htext : (treeWith "new").readText ⟨"a"⟩ with
  | error e =>
      rw [htext] at hread
      cases hread
  | ok text =>
      rw [htext] at hread
      rw [Option.some.inj hread]

/-- What is served is the old content, and the file has the new one. -/
lemma not_rightFor {report : CompileReport} (h : report.outputs[(⟨"a"⟩ : Path)]? = some "old") :
    ¬RightFor compile report (treeWith "new") ⟨"a"⟩ := by
  intro hright
  have hsame : some "old" = some "new" := h.symm.trans (hright "new" readText_new)
  exact absurd (Option.some.inj hsame) (by decide)

end Overtaken

/-- A store that is overtaken by an edit leaves a deposit that is not honest. -/
theorem served_output_overtaken : ∃ s pass report d,
    Steps Overtaken.compile Overtaken.known
        (Scene.cold (Overtaken.treeWith "old") ⟨"cache"⟩) s
      ∧ s.passes 1 = some pass ∧ pass.stage = .ended (.ok report) ∧ ⟨"a"⟩ ∈ report.cached
      ∧ (∃ g, glanceAt pass.glances ⟨"a"⟩ = some g ∧ lastDeposit g.deposits ⟨"a"⟩ = some d)
      ∧ d.read = "old" ∧ ¬d.Honest Overtaken.compile := by
  obtain ⟨s, pass, report, g, hsteps, hpass, hended, hcached, houtput, hglance, htree⟩ :=
    Overtaken.exists_scene
  have hmem : (⟨"a"⟩ : Path) ∈ report.cached := by simp [hcached]
  have hwithin := Overtaken.within_treeWith (by simp : "old" ∈ ["old", "new"])
  obtain ⟨g', d, hglance', hlast, -, hserved, hright⟩ :=
    served_output_iff Overtaken.injOn_known hwithin hsteps hpass hended hmem
  cases hglance.symm.trans hglance'
  rw [htree] at hright
  refine ⟨s, pass, report, d, hsteps, hpass, hended, hmem, ⟨g, hglance, hlast⟩, ?_, ?_⟩
  · have hread : some "old" = some d.read := houtput.symm.trans hserved
    exact (Option.some.inj hread).symm
  · intro hhonest
    exact Overtaken.not_rightFor houtput (hright.2 hhonest)

/-- Not every served output is right for what its file was at the look. -/
theorem not_served_output_right :
    ¬∀ (compile : Path → String → Verdict) (known : Set ByteArray) (tree : FileTree)
      (directory : Path) (s : Scene) (i : Nat) (pass : Pass) (report : CompileReport) (p : Path)
      (g : Glance),
      Set.InjOn Digest.ofBytes known → Within known tree →
      Steps compile known (Scene.cold tree directory) s → s.passes i = some pass →
      pass.stage = .ended (.ok report) → p ∈ report.cached → glanceAt pass.glances p = some g →
      RightFor compile report g.tree p := by
  intro hall
  obtain ⟨s, pass, report, g, hsteps, hpass, hended, hcached, houtput, hglance, htree⟩ :=
    Overtaken.exists_scene
  have hmem : (⟨"a"⟩ : Path) ∈ report.cached := by simp [hcached]
  have hwithin := Overtaken.within_treeWith (by simp : "old" ∈ ["old", "new"])
  have hright := hall _ _ _ _ s 1 pass report _ g Overtaken.injOn_known hwithin hsteps hpass hended
    hmem hglance
  rw [htree] at hright
  exact Overtaken.not_rightFor houtput hright

end Rebuild.Compilation
