import Mathlib.Data.Set.Function
import Mathlib.Logic.Function.Basic
import Rebuild.Proofs.Compilation.Pass

/-!
# Passes side by side

Several passes work on one cache while anybody edits the files.  A pass is taken apart into its
steps (`Step`): it looks up one file, demotes hits, reads one file, hears from one worker, or stores
one outcome, by the same functions that `Compilation.run` is made of; between any two steps of a
pass there can be steps of others and edits.

What a scene remembers beside its state are the stores (`Deposit`) and the looks of each pass
(`Glance`).  An entry is a deposit: its digest is that of the file when the output was *stored*, its
output is of what the task had *read* before.

* **Invariant.**  `Scene.Good` is kept by every step (`Good.step`).
* **Endpoint.**  `served_output_iff`: an output from the cache is right for what the file was at the
  look exactly if the last deposit before is right for what its file was when it was stored.
-/

namespace Rebuild.Compilation

/-! ## Scenes -/

/-- A store: what the task had read, what the file was when it was hashed, and what was stored. -/
structure Deposit where
  path : Path
  read : String
  found : ByteArray
  output : String

/-- A look at a file: the tree at that moment, and the stores before it, the latest first. -/
structure Glance where
  path : Path
  tree : FileTree
  deposits : List Deposit

/-- How far a pass has come. -/
inductive Stage where
  /-- Looking up the first of these files. -/
  | looking (todo : List Path) (division : Division)
  /-- Reading the first of these files. -/
  | reading (todo : List Path) (report : CompileReport) (tasks : List Task)
  /-- Waiting for workers; some of the tasks have outcomes. -/
  | working (slots : List (Task × Option Outcome)) (report : CompileReport)
  /-- Storing the first of these outcomes. -/
  | storing (todo : List (Task × Outcome)) (report : CompileReport)
  | ended (result : Except BuildError CompileReport)

/-- A pass that has begun. -/
structure Pass where
  force : Bool
  stage : Stage
  /-- Its looks so far, the latest first. -/
  glances : List Glance := []

/-- Files, a cache, and the passes at work on them. -/
structure Scene where
  tree : FileTree
  cache : Cache
  passes : Nat → Option Pass := fun _ => none
  /-- The stores so far, the latest first. -/
  deposits : List Deposit := []

/-- The scene with another state of a pass. -/
def Scene.put (s : Scene) (i : Nat) (pass : Pass) : Scene :=
  { s with passes := Function.update s.passes i (some pass) }

/-- A compiler that sees path and content only. -/
def compilerOf (compile : Path → String → Verdict) : Compiler := fun t => compile t.path t.content

/-- The output of a verdict. -/
def output? : Verdict → Option String
  | .compiled output _ => some output
  | _ => none

/-- What is stored with an outcome: nothing, if there is no output or the file cannot be read. -/
def deposit? (tree : FileTree) (t : Task) : Outcome → Option Deposit
  | .ok result =>
    match tree.readBytes t.path.normalize with
    | .ok found =>
      if result.success then some ⟨t.path.normalize, t.content, found, result.output.getD ""⟩
      else none
    | .error _ => none
  | .error _ => none

/-- The report of a pass that has divided its files. -/
def serve (d : Division) : CompileReport :=
  d.hits.foldl (fun r (p, entry) => r.addCached p entry.output) {}

/-- One step of anybody. -/
inductive Step (compile : Path → String → Verdict) (known : Set ByteArray) :
    Scene → Scene → Prop where
  | edit {s : Scene} (tree : FileTree) (h : Within known tree) :
      Step compile known s { s with tree }
  | begin {s : Scene} (i : Nat) (force : Bool) (files : List Path) (h : s.passes i = none) :
      Step compile known s (s.put i { force, stage := .looking (inputs files) {} })
  | lookup {s : Scene} {i : Nat} {force : Bool} {glances : List Glance} {p : Path}
    {todo : List Path}
      {d : Division} (h : s.passes i = some ⟨force, .looking (p :: todo) d, glances⟩) :
      Step compile known s
        (Scene.put
          { s with cache := (Compilation.lookup (fun _ => s.tree) force (s.cache, d) p).1 } i
          ⟨force, .looking todo (Compilation.lookup (fun _ => s.tree) force (s.cache, d) p).2,
            ⟨p, s.tree, s.deposits⟩ :: glances⟩)
  | demote {s : Scene} {i : Nat} {force : Bool} {glances : List Glance} {d : Division}
      (h : s.passes i = some ⟨force, .looking [] d, glances⟩) :
      Step compile known s (s.put i ⟨force, .reading (d.demote s.cache.graph).misses
        (serve (d.demote s.cache.graph)) [], glances⟩)
  | read {s : Scene} {i : Nat} {force : Bool} {glances : List Glance} {p : Path} {todo : List Path}
      {report : CompileReport} {tasks : List Task} (fresh : String)
      (h : s.passes i = some ⟨force, .reading (p :: todo) report tasks, glances⟩) :
      Step compile known s (s.put i ⟨force, .reading todo
        (Compilation.read (fun _ => s.tree) fresh (report, tasks) p).1
        (Compilation.read (fun _ => s.tree) fresh (report, tasks) p).2, glances⟩)
  | submit {s : Scene} {i : Nat} {force : Bool} {glances : List Glance} {report : CompileReport}
      {tasks : List Task} (h : s.passes i = some ⟨force, .reading [] report tasks, glances⟩) :
      Step compile known s (s.put i ⟨force, .working (tasks.map (·, none)) report, glances⟩)
  | work {s : Scene} {i : Nat} {force : Bool} {glances : List Glance} {report : CompileReport}
      {before after : List (Task × Option Outcome)} {t : Task} {outcome : Outcome}
      (h : s.passes i = some ⟨force, .working (before ++ (t, none) :: after) report, glances⟩)
      (hanswers : Answers (compilerOf compile) t outcome) :
      Step compile known s
        (s.put i ⟨force, .working (before ++ (t, some outcome) :: after) report, glances⟩)
  | collect {s : Scene} {i : Nat} {force : Bool} {glances : List Glance} {report : CompileReport}
      {done : List (Task × Outcome)}
      (h : s.passes i
        = some ⟨force, .working (done.map fun x => (x.1, some x.2)) report, glances⟩) :
      Step compile known s (s.put i ⟨force, .storing done report, glances⟩)
  | store {s : Scene} {i : Nat} {force : Bool} {glances : List Glance}
      {report report' : CompileReport} {t : Task} {outcome : Outcome} {todo : List (Task × Outcome)}
      {cache : Cache} (now : Timestamp)
      (h : s.passes i = some ⟨force, .storing ((t, outcome) :: todo) report, glances⟩)
      (hrecord : record (fun _ => s.tree) now (s.cache, report) t.path outcome
        = .ok (cache, report')) :
      Step compile known s
        (Scene.put { s with cache, deposits := (deposit? s.tree t outcome).toList ++ s.deposits } i
          ⟨force, .storing todo report', glances⟩)
  | fail {s : Scene} {i : Nat} {force : Bool} {glances : List Glance} {stage : Stage}
    (e : BuildError)
      (h : s.passes i = some ⟨force, stage, glances⟩) :
      Step compile known s (s.put i ⟨force, .ended (.error e), glances⟩)
  | finish {s : Scene} {i : Nat} {force : Bool} {glances : List Glance} {report : CompileReport}
      (h : s.passes i = some ⟨force, .storing [] report, glances⟩) :
      Step compile known s (s.put i ⟨force, .ended (.ok report), glances⟩)

/-- Any number of steps. -/
abbrev Steps (compile : Path → String → Verdict) (known : Set ByteArray) : Scene → Scene → Prop :=
  Relation.ReflTransGen (Step compile known)

/-! ## The invariant -/

/-- The last store of a file. -/
def lastDeposit (deposits : List Deposit) (p : Path) : Option Deposit :=
  deposits.find? fun d => d.path = p

/-- The look of a pass at a file. -/
def glanceAt (glances : List Glance) (p : Path) : Option Glance :=
  glances.find? fun g => g.path = p

lemma lastDeposit_cons (d : Deposit) (deposits : List Deposit) (p : Path) :
    lastDeposit (d :: deposits) p = if d.path = p then some d else lastDeposit deposits p := by
  simp only [lastDeposit, List.find?_cons]
  split_ifs with h <;> simp [h]

lemma glanceAt_cons (g : Glance) (glances : List Glance) (p : Path) :
    glanceAt (g :: glances) p = if g.path = p then some g else glanceAt glances p := by
  simp only [glanceAt, List.find?_cons]
  split_ifs with h <;> simp [h]

variable {compile : Path → String → Verdict} {known : Set ByteArray}

/-- What a deposit is: the output that the compiler made of what the task had read. -/
def Deposit.Made (compile : Path → String → Verdict) (d : Deposit) : Prop :=
  ∃ ds, compile d.path d.read = .compiled d.output ds

/-- The entry is the last deposit of its file. -/
def Backed (compile : Path → String → Verdict) (known : Set ByteArray) (deposits : List Deposit)
    (p : Path) (e : CacheEntry) : Prop :=
  ∃ d, lastDeposit deposits p = some d ∧ d.Made compile ∧ d.found ∈ known
    ∧ e.inputDigest = Digest.ofBytes d.found ∧ e.output = d.output

/-- The output is that of the last deposit before the look at the file, and the file was at the look
what it was when the deposit was made. -/
def Vouched (compile : Path → String → Verdict) (glances : List Glance) (p : Path)
    (output : String) : Prop :=
  ∃ g d, glanceAt glances p = some g ∧ lastDeposit g.deposits p = some d ∧ d.Made compile
    ∧ g.tree.readBytes p = .ok d.found ∧ output = d.output

/-- What a report says of the files that it serves, while other outputs are still to come. -/
structure Serves (compile : Path → String → Verdict) (glances : List Glance)
    (report : CompileReport) (others : List Path) : Prop where
  vouched : ∀ p ∈ report.cached, p.normalize = p
    ∧ ∃ output, report.outputs[p]? = some output ∧ Vouched compile glances p output
  apart : ∀ q ∈ others, q.normalize = q ∧ q ∉ report.cached

/-- What holds of a pass at each stage. -/
def Stage.Good (compile : Path → String → Verdict) (glances : List Glance) : Stage → Prop
  | .looking todo d => (d.hits.map Prod.fst ++ (d.misses ++ todo)).Nodup
      ∧ (∀ p ∈ d.hits.map Prod.fst ++ (d.misses ++ todo), p.normalize = p)
      ∧ ∀ h ∈ d.hits, Vouched compile glances h.1 h.2.output
  | .reading todo report tasks => Serves compile glances report (todo ++ tasks.map Task.path)
  | .working slots report => Serves compile glances report (slots.map (·.1.path))
      ∧ ∀ t outcome, (t, some outcome) ∈ slots → Answers (compilerOf compile) t outcome
  | .storing todo report => Serves compile glances report (todo.map (·.1.path))
      ∧ ∀ x ∈ todo, Answers (compilerOf compile) x.1 x.2
  | .ended (.ok report) => Serves compile glances report []
  | .ended (.error _) => True

/-- What holds of a scene: its files are known, its entries are deposits, and its passes serve what
is vouched for. -/
structure Scene.Good (compile : Path → String → Verdict) (known : Set ByteArray) (s : Scene) :
    Prop where
  within : Within known s.tree
  backed : ∀ p e, p.normalize = p → s.cache.entries[p]? = some e →
    Backed compile known s.deposits p e
  passes : ∀ i pass, s.passes i = some pass → pass.stage.Good compile pass.glances

/-- A step of one pass leaves the others as they are. -/
lemma Scene.Good.put {s : Scene} (h : s.Good compile known) (i : Nat) {pass : Pass}
    (hpass : pass.stage.Good compile pass.glances) : (s.put i pass).Good compile known where
  within := h.within
  backed := h.backed
  passes j found hfound := by
    simp only [Scene.put, Function.update_apply] at hfound
    split_ifs at hfound
    · cases hfound
      exact hpass
    · exact h.passes j found hfound

lemma Vouched.glance {glances : List Glance} {p : Path} {output : String} {g : Glance}
    (h : Vouched compile glances p output) (hne : g.path ≠ p) :
    Vouched compile (g :: glances) p output := by
  obtain ⟨g', d, hglance, hrest⟩ := h
  refine ⟨g', d, ?_, hrest⟩
  rw [glanceAt_cons, if_neg hne]
  exact hglance

/-- What is not compiled again keeps its output. -/
lemma Serves.of_eq {glances : List Glance} {report report' : CompileReport}
    {others others' : List Path}
    (h : Serves compile glances report others) (hcached : report'.cached = report.cached)
    (houtputs : ∀ p ∈ report.cached, report'.outputs[p]? = report.outputs[p]?)
    (hothers : ∀ q ∈ others', q ∈ others) : Serves compile glances report' others' where
  vouched p hp := by
    rw [hcached] at hp
    rw [houtputs p hp]
    exact h.vouched p hp
  apart q hq := by
    rw [hcached]
    exact h.apart q (hothers q hq)

/-! ## The steps -/

/-- What a pass is answered about a file is vouched for by its look. -/
lemma Scene.Good.vouched {s : Scene} (h : s.Good compile known)
    (hknown : Set.InjOn Digest.ofBytes known) {force : Bool} {p : Path} {e : CacheEntry}
    (hp : p.normalize = p) (hanswer : answerFor (fun _ => s.tree) force s.cache p = some e)
    (glances : List Glance) :
    Vouched compile (⟨p, s.tree, s.deposits⟩ :: glances) p e.output := by
  have hfresh : s.cache.Fresh s.tree p e := by
    rw [answerFor] at hanswer
    split_ifs at hanswer
    have := Cache.fresh?_eq_some_iff.1 hanswer
    rwa [hp] at this
  obtain ⟨d, hlast, hmade, hfound, hinput, houtput⟩ := h.backed p e hp hfresh.entry
  obtain ⟨bytes, hread, hdigest⟩ := Cache.currentDigest?_eq_some_iff.1 hfresh.now
  have hsame : bytes = d.found := hknown (h.within p bytes hread) hfound (hdigest.trans hinput)
  refine ⟨⟨p, s.tree, s.deposits⟩, d, ?_, hlast, hmade, ?_, houtput⟩
  · rw [glanceAt_cons, if_pos rfl]
  · rw [← hsame]
    exact hread

lemma outputs_of_not_mem {hits : List Hit} {p : Path} (hp : p.normalize = p)
    (hnormal : ∀ h ∈ hits, h.1.normalize = h.1) (hmem : p ∉ hits.map Prod.fst)
    (m : PathMap String) : (hits.foldl (fun m h => m.put h.1 h.2.output) m)[p]? = m[p]? := by
  induction hits generalizing m with
  | nil => rfl
  | cons h hits ih =>
      simp only [List.map_cons, List.mem_cons, not_or] at hmem
      rw [List.foldl_cons, ih (fun x hx => hnormal x (List.mem_cons_of_mem _ hx)) hmem.2]
      refine PathMap.getElem?_put_of_ne _ _ fun heq => hmem.1 ?_
      exact (Path.eq_of_compare (hnormal h List.mem_cons_self) hp heq).symm

/-- A served file has the output of its entry. -/
lemma outputs_of_mem {hits : List Hit} {p : Path} {e : CacheEntry}
    (hnormal : ∀ h ∈ hits, h.1.normalize = h.1) (hnodup : (hits.map Prod.fst).Nodup)
    (hmem : (p, e) ∈ hits) (m : PathMap String) :
    (hits.foldl (fun m h => m.put h.1 h.2.output) m)[p]? = some e.output := by
  induction hits generalizing m with
  | nil => cases hmem
  | cons h hits ih =>
      obtain ⟨hnot, hnodup'⟩ := List.nodup_cons.1 hnodup
      have hnormal' : ∀ x ∈ hits, x.1.normalize = x.1 :=
        fun x hx => hnormal x (List.mem_cons_of_mem _ hx)
      rw [List.foldl_cons]
      rcases List.mem_cons.1 hmem with rfl | hmem
      · rw [outputs_of_not_mem (hnormal _ List.mem_cons_self) hnormal' hnot]
        exact PathMap.getElem?_put_self _ _ _
      · exact ih hnormal' hnodup' hmem _

/-- A division whose hits are vouched for makes a report that serves them. -/
lemma serves_serve {glances : List Glance} {d : Division}
    (hnodup : (d.hits.map Prod.fst ++ d.misses).Nodup)
    (hnormal : ∀ p ∈ d.hits.map Prod.fst ++ d.misses, p.normalize = p)
    (hvouched : ∀ h ∈ d.hits, Vouched compile glances h.1 h.2.output) :
    Serves compile glances (serve d) d.misses := by
  have hserve : serve d = {
      cached := d.hits.map Prod.fst
      outputs := d.hits.foldl (fun m h => m.put h.1 h.2.output) ∅ } := by
    rw [serve, foldl_addCached]
    rfl
  rw [hserve]
  have hhits : ∀ h ∈ d.hits, h.1.normalize = h.1 := fun h hh =>
    hnormal _ (List.mem_append_left _ (List.mem_map.2 ⟨h, hh, rfl⟩))
  refine ⟨fun p hp => ?_, fun q hq => ⟨hnormal q (List.mem_append_right _ hq), fun hcached => ?_⟩⟩
  · obtain ⟨⟨p, e⟩, hhit, rfl⟩ := List.mem_map.1 hp
    refine ⟨hhits _ hhit, e.output, ?_, hvouched _ hhit⟩
    exact outputs_of_mem hhits (List.nodup_append.1 hnodup).1 hhit ∅
  · exact List.disjoint_of_nodup_append hnodup hcached hq

/-- Looking up one more file. -/
lemma Scene.Good.lookup {s : Scene} (h : s.Good compile known)
    (hknown : Set.InjOn Digest.ofBytes known) {force : Bool} {glances : List Glance} {p : Path}
    {todo : List Path} {d : Division}
    (hstage : (Stage.looking (p :: todo) d).Good compile glances) :
    (Stage.looking todo (Compilation.lookup (fun _ => s.tree) force (s.cache, d) p).2).Good compile
      (⟨p, s.tree, s.deposits⟩ :: glances) := by
  obtain ⟨hnodup, hnormal, hvouched⟩ := hstage
  obtain ⟨-, hdivision⟩ := lookup_eq (fun _ => s.tree) force s.cache d p
  have hp : p.normalize = p := hnormal p (by simp)
  -- The file is looked up once, so the new look is not in the way of the old ones.
  have hne : ∀ h ∈ d.hits, p ≠ h.1 := by
    rintro hit hhit rfl
    exact List.disjoint_of_nodup_append hnodup (List.mem_map.2 ⟨hit, hhit, rfl⟩) (by simp)
  have hold : ∀ h ∈ d.hits,
      Vouched compile (⟨p, s.tree, s.deposits⟩ :: glances) h.1 h.2.output :=
    fun hit hhit => (hvouched hit hhit).glance (hne hit hhit)
  rw [hdivision]
  cases hanswer : answerFor (fun _ => s.tree) force s.cache p with
  | none =>
      have hperm : (d.hits.map Prod.fst ++ (d.misses ++ [p] ++ todo)).Perm
          (d.hits.map Prod.fst ++ (d.misses ++ p :: todo)) := by
        rw [List.append_assoc]
        rfl
      exact ⟨hperm.nodup_iff.2 hnodup, fun q hq => hnormal q (hperm.mem_iff.1 hq), hold⟩
  | some e =>
      have hperm : ((d.hits ++ [(p, e)]).map Prod.fst ++ (d.misses ++ todo)).Perm
          (d.hits.map Prod.fst ++ (d.misses ++ p :: todo)) := by
        rw [List.map_append, List.append_assoc]
        have hmiddle : (p :: (d.misses ++ todo)).Perm (d.misses ++ p :: todo) :=
          List.perm_middle.symm
        exact hmiddle.append_left _
      refine ⟨hperm.nodup_iff.2 hnodup, fun q hq => hnormal q (hperm.mem_iff.1 hq), ?_⟩
      intro hit hhit
      rcases List.mem_append.1 hhit with hhit | hhit
      · exact hold hit hhit
      · rw [List.mem_singleton.1 hhit]
        exact h.vouched hknown hp hanswer glances

/-- Storing an outcome: what is served stays, and what is stored is a deposit. -/
lemma Scene.Good.store {s : Scene} (h : s.Good compile known) {glances : List Glance}
    {now : Timestamp}
    {report report' : CompileReport} {t : Task} {outcome : Outcome} {todo : List (Task × Outcome)}
    {cache : Cache} (hstage : (Stage.storing ((t, outcome) :: todo) report).Good compile glances)
    (hrecord : record (fun _ => s.tree) now (s.cache, report) t.path outcome
      = .ok (cache, report')) :
    (Stage.storing todo report').Good compile glances
      ∧ ∀ p e, p.normalize = p → cache.entries[p]? = some e →
        Backed compile known ((deposit? s.tree t outcome).toList ++ s.deposits) p e := by
  obtain ⟨hserves, hanswers⟩ := hstage
  have hrest : ∀ x ∈ todo, Answers (compilerOf compile) x.1 x.2 :=
    fun x hx => hanswers x (List.mem_cons_of_mem _ hx)
  have hothers : ∀ q ∈ todo.map (·.1.path), q ∈ ((t, outcome) :: todo).map (·.1.path) :=
    fun q hq => List.mem_cons_of_mem _ hq
  obtain ⟨ht, hnot⟩ := hserves.apart t.path List.mem_cons_self
  have hanswer : Answers (compilerOf compile) t outcome := hanswers (t, outcome) List.mem_cons_self
  rcases record_ok hanswer hrecord with
    ⟨output, reported, metadata, hverdict, rfl, hstore, rfl⟩ | ⟨rfl, ⟨m, rfl⟩, hnothing⟩
  · obtain ⟨e, hstored⟩ := Cache.exists_stored hstore
    obtain ⟨bytes, hread, hdigest⟩ := Cache.currentDigest?_eq_some_iff.1 hstored.now
    have hdeposit : deposit? s.tree t (.ok (.ofCompiled t.id output reported))
        = some ⟨t.path.normalize, t.content, bytes, output⟩ := by
      simp [deposit?, hread, TaskReport.ofCompiled]
    refine ⟨⟨hserves.of_eq rfl (fun p hp => ?_) hothers, hrest⟩, fun p e' hp hentry => ?_⟩
    · refine PathMap.getElem?_put_of_ne _ _ fun heq => hnot ?_
      rwa [Path.eq_of_compare ht (hserves.vouched p hp).1 heq]
    · rw [hdeposit, Option.toList_some, List.singleton_append]
      rw [hstored.entries p hp] at hentry
      rw [Backed]
      rw [lastDeposit_cons]
      by_cases hpt : p = t.path.normalize
      · rw [if_pos hpt] at hentry
        cases hentry
        rw [if_pos hpt.symm]
        refine ⟨_, rfl, ⟨reported, ?_⟩, h.within _ bytes hread, hdigest.symm, hstored.output_eq⟩
        rw [ht]
        exact hverdict
      · rw [if_neg hpt] at hentry
        rw [if_neg (Ne.symm hpt)]
        exact h.backed p e' hp hentry
  · have hnone : deposit? s.tree t outcome = none := by
      cases outcome with
      | error e => rfl
      | ok result =>
          cases hread : s.tree.readBytes t.path.normalize with
          | error cause => simp [deposit?, hread]
          | ok bytes =>
              have hsome := Cache.currentDigest?_eq_some_iff.2 ⟨bytes, hread, rfl⟩
              cases hsuccess : result.success with
              | false => simp [deposit?, hread, hsuccess]
              | true => cases (hnothing result rfl hsuccess).symm.trans hsome
    rw [hnone]
    exact ⟨⟨hserves.of_eq rfl (fun _ _ => rfl) hothers, hrest⟩, h.backed⟩

/-- **Every step keeps the invariant.** -/
theorem Scene.Good.step {s s' : Scene} (h : s.Good compile known)
    (hknown : Set.InjOn Digest.ofBytes known) (hstep : Step compile known s s') :
    s'.Good compile known := by
  cases hstep with
  | edit tree hwithin => exact ⟨hwithin, h.backed, h.passes⟩
  | begin i force files hnew =>
      refine h.put i ⟨?_, ?_, ?_⟩
      · exact nodup_inputs files
      · exact fun p hp => normalize_of_mem_inputs hp
      · intro hit hhit
        cases hhit
  | @lookup i force glances p todo d hpass =>
      have hgood : Scene.Good compile known
          { s with cache := (Compilation.lookup (fun _ => s.tree) force (s.cache, d) p).1 } := by
        refine ⟨h.within, fun q e hq hentry => h.backed q e hq ?_, h.passes⟩
        have hsame := (lookup_eq (fun _ => s.tree) force s.cache d p).1
        rwa [← hsame.entries]
      exact hgood.put i (h.lookup hknown (h.passes i _ hpass))
  | @demote i force glances d hpass =>
      obtain ⟨hnodup, hnormal, hvouched⟩ := h.passes i _ hpass
      have hdemoted := Division.demoted_demote s.cache.graph d
      rw [List.append_nil] at hnodup hnormal
      refine h.put i ?_
      show Serves compile glances _ ((d.demote s.cache.graph).misses ++ [].map Task.path)
      rw [List.map_nil, List.append_nil]
      refine serves_serve (hdemoted.perm.nodup_iff.2 hnodup) ?_ ?_
      · exact fun p hp => hnormal p (hdemoted.perm.mem_iff.1 hp)
      · exact fun hit hhit => hvouched hit (hdemoted.hits.subset hhit)
  | @read i force glances p todo report tasks fresh hpass =>
      have hserves : Serves compile glances report (p :: todo ++ tasks.map Task.path) :=
        h.passes i _ hpass
      refine h.put i ?_
      simp only [read_eq]
      refine hserves.of_eq rfl (fun _ _ => rfl) fun q hq => ?_
      cases htask : taskFor (fun _ => s.tree) fresh p with
      | none =>
          simp only [htask, Option.toList_none, List.append_nil, List.mem_append] at hq
          simp only [List.cons_append, List.mem_cons, List.mem_append]
          exact Or.inr hq
      | some t =>
          simp only [htask, Option.toList_some, List.map_append, List.map_cons, List.map_nil,
            List.mem_append, List.mem_singleton, path_of_taskFor htask] at hq
          simp only [List.cons_append, List.mem_cons, List.mem_append]
          rcases hq with hq | hq | rfl
          · exact Or.inr (Or.inl hq)
          · exact Or.inr (Or.inr hq)
          · exact Or.inl rfl
  | @submit i force glances report tasks hpass =>
      have hserves : Serves compile glances report ([] ++ tasks.map Task.path) := h.passes i _ hpass
      refine h.put i ⟨?_, ?_⟩
      · rw [List.map_map]
        exact hserves
      · intro t outcome hmem
        obtain ⟨u, -, heq⟩ := List.mem_map.1 hmem
        cases heq
  | @work i force glances report before after t outcome hpass hanswers =>
      obtain ⟨hserves, hold⟩ := h.passes i _ hpass
      refine h.put i ⟨?_, ?_⟩
      · simpa using hserves
      · intro u found hmem
        rcases List.mem_append.1 hmem with hmem | hmem
        · exact hold u found (List.mem_append_left _ hmem)
        · rcases List.mem_cons.1 hmem with heq | hmem
          · cases heq
            exact hanswers
          · exact hold u found (List.mem_append_right _ (List.mem_cons_of_mem _ hmem))
  | @collect i force glances report done hpass =>
      obtain ⟨hserves, hold⟩ := h.passes i _ hpass
      refine h.put i ⟨?_, ?_⟩
      · rw [List.map_map] at hserves
        exact hserves
      · intro x hx
        exact hold x.1 x.2 (List.mem_map.2 ⟨x, hx, rfl⟩)
  | @store i force glances report report' t outcome todo cache now hpass hrecord =>
      obtain ⟨hstage, hbacked⟩ := h.store (h.passes i _ hpass) hrecord
      have hgood : Scene.Good compile known { s with
          cache
          deposits := (deposit? s.tree t outcome).toList ++ s.deposits } :=
        ⟨h.within, hbacked, h.passes⟩
      exact hgood.put i hstage
  | fail e hpass => exact h.put _ trivial
  | @finish i force glances report hpass =>
      obtain ⟨hserves, -⟩ := h.passes i _ hpass
      exact h.put i hserves

/-- A cold cache and no pass. -/
def Scene.cold (tree : FileTree) (directory : Path) : Scene where
  tree
  cache := { directory }

lemma Scene.good_cold {tree : FileTree} (h : Within known tree) (directory : Path) :
    (Scene.cold tree directory).Good compile known where
  within := h
  backed p e _ hentry := by simp [Scene.cold] at hentry
  passes i pass hpass := by cases hpass

/-- What holds after any steps from a good scene. -/
lemma Scene.Good.steps {s s' : Scene} (h : s.Good compile known)
    (hknown : Set.InjOn Digest.ofBytes known) (hsteps : Steps compile known s s') :
    s'.Good compile known := by
  induction hsteps with
  | refl => exact h
  | tail _ hstep ih => exact ih.step hknown hstep

/-- The report has the compiler's output for what `p` is on this tree. -/
def RightFor (compile : Path → String → Verdict) (report : CompileReport) (tree : FileTree)
    (p : Path) : Prop :=
  ∀ content, tree.readText p = .ok content → report.outputs[p]? = output? (compile p content)

/-- The compiler makes the same of what the task had read as of what was found at the store. -/
def Deposit.Honest (compile : Path → String → Verdict) (d : Deposit) : Prop :=
  ∀ content, String.fromUTF8? d.found = some content →
    output? (compile d.path d.read) = output? (compile d.path content)

/-- **Passes side by side.**  Whatever passes and edits come before and meanwhile: if a pass lists
`p` as served, its output is that of the last deposit of `p` before the look, which the compiler
made of what a task had read; and `p` was at the look what that store had found.  So the output is
right for what `p` was at the look exactly if that deposit is honest. -/
theorem served_output_iff {tree : FileTree} {directory : Path} {s : Scene} {i : Nat} {pass : Pass}
    {report : CompileReport} {p : Path} (hknown : Set.InjOn Digest.ofBytes known)
    (hwithin : Within known tree) (hsteps : Steps compile known (Scene.cold tree directory) s)
    (hpass : s.passes i = some pass) (hended : pass.stage = .ended (.ok report))
    (hp : p ∈ report.cached) :
    ∃ g d, glanceAt pass.glances p = some g ∧ lastDeposit g.deposits p = some d
      ∧ g.tree.readBytes p = .ok d.found ∧ report.outputs[p]? = output? (compile p d.read)
      ∧ (RightFor compile report g.tree p ↔ d.Honest compile) := by
  have hgood := (Scene.good_cold hwithin directory).steps hknown hsteps
  have hserves := hgood.passes i pass hpass
  rw [hended] at hserves
  obtain ⟨-, output, houtput, g, d, hglance, hlast, ⟨ds, hmade⟩, hread, rfl⟩ := hserves.vouched p hp
  have hpath : d.path = p := by
    have := List.find?_some hlast
    simpa using this
  have hserved : report.outputs[p]? = output? (compile p d.read) := by
    rw [houtput, ← hpath, hmade]
    rfl
  have htext : ∀ content,
      g.tree.readText p = .ok content ↔ String.fromUTF8? d.found = some content := by
    intro content
    rw [FileTree.readText_eq_ok_iff]
    constructor
    · rintro ⟨bytes, hbytes, hcontent⟩
      cases hread.symm.trans hbytes
      exact hcontent
    · intro hcontent
      exact ⟨d.found, hread, hcontent⟩
  refine ⟨g, d, hglance, hlast, hread, hserved, ?_⟩
  rw [RightFor, Deposit.Honest]
  simp only [htext, hserved, hpath]

end Rebuild.Compilation
