import Rebuild.Project.Basic
import Rebuild.Proofs.Compilation.Ending
import Rebuild.Proofs.Files.Failing
import Rebuild.Proofs.Pool.Overflow

/-!
# When a pass overflows its pool

A configuration bounds the workers, the queue and the tasks of a pass that may be under way, each by
itself.  `overflows_iff` says which configurations let a pass fail because the queue is full: those
that have room for fewer tasks than may be under way, once there are that many files to compile.

* **Failing.**  `recordAll_eq_error_iff`: of outcomes that concern their tasks or the queue, only
  the latter make the pass fail.
* **Workshops.**  `Operated`: what passes leave of the pool of a configuration is a pool at rest.
-/

namespace Rebuild

namespace Compilation

variable {s : Surroundings} {sight : Sight} {options : CompileOptions} {w w' : Workshop}
  {files : List Path} {tree : FileTree} {result : Except BuildError CompileReport}
  {now : Timestamp} {e : BuildError}

lemma fresh_flight (h : w.pool.Rested) : (flight s sight options w files).Fresh where
  rested := h
  ordered := rfl
  limit_pos := Nat.lt_of_lt_of_le Nat.zero_lt_one (Nat.le_max_right _ _)
  slots := rfl
  collected := rfl

/-! ## Failing -/

/-- A pass fails with the first outcome that does not concern its task alone. -/
lemma record_eq_error_iff {state : Cache × CompileReport} {file : Path} {outcome : Outcome} :
    record sight now state file outcome = .error e ↔ outcome = .error e ∧ e.isPerTask = false := by
  cases outcome with
  | error found =>
      simp only [record]
      split_ifs with hper
      · constructor
        · intro h
          cases h
        · rintro ⟨heq, hglobal⟩
          cases heq
          cases hper.symm.trans hglobal
      · simp only [Except.error.injEq]
        exact ⟨fun h => ⟨h, h ▸ Bool.eq_false_iff.2 hper⟩, And.left⟩
  | ok found =>
      constructor
      · intro h
        simp only [record] at h
        split_ifs at h
        split at h <;> cases h
      · rintro ⟨h, -⟩
        cases h

/-- Outcomes that concern their tasks, or the queue, make a pass fail exactly if the queue was full.
-/
lemma recordAll_eq_error_iff {outcomes : List (Path × Outcome)} {state : Cache × CompileReport}
    {capacity : Nat} (h : ∀ o ∈ outcomes, ConcernsTaskOrQueue capacity o.2) :
    (recordAll sight now state outcomes).2 = .error e ↔
      e = .queueOverflow capacity ∧ .error (.queueOverflow capacity) ∈ outcomes.map Prod.snd := by
  induction outcomes generalizing state with
  | nil => simp [recordAll]
  | cons o outcomes ih =>
      obtain ⟨file, outcome⟩ := o
      have hrest := fun o ho => h o (List.mem_cons_of_mem _ ho)
      rw [recordAll, List.map_cons, List.mem_cons]
      cases hrecord : record sight now state file outcome with
      | error found =>
          obtain ⟨rfl, hglobal⟩ := record_eq_error_iff.1 hrecord
          have hqueue : found = .queueOverflow capacity := by
            rcases h _ List.mem_cons_self with hper | hqueue
            · cases (hper found rfl).symm.trans hglobal
            · exact Except.error.inj hqueue
          subst hqueue
          simp [eq_comm]
      | ok next =>
          have hne : (.error (.queueOverflow capacity) : Outcome) ≠ outcome := by
            rintro rfl
            cases hrecord.symm.trans (record_eq_error_iff.2 ⟨rfl, rfl⟩)
          simp only [ih hrest, hne, false_or]

lemma not_isWriteFault_queueOverflow {p : Path} {e : BuildError} (h : FileTree.IsWriteFault e)
    (n : Nat) : CacheStore.writeError p e ≠ .queueOverflow n := by
  obtain ⟨q, operation, cause, rfl⟩ | ⟨problem, rfl⟩ := h
  · exact BuildError.noConfusion
  · exact BuildError.noConfusion

lemma writeDocument_ne_queueOverflow {faults : Faults} {fresh text : String} {tree' : FileTree}
    {p : Path} {n : Nat} (h : CacheStore.writeDocument faults fresh now tree p text
      = (tree', .error e)) : e ≠ .queueOverflow n := by
  rw [CacheStore.writeDocument] at h
  split at h
  · cases h
  · rename_i hwrite
    cases h
    exact not_isWriteFault_queueOverflow (FileTree.isWriteFault_of_writeAtomic hwrite) n

/-- Saving never fails because of the queue. -/
lemma saveResult_eq_queueOverflow_iff {n : Nat} :
    saveResult s tree w result = .error (.queueOverflow n) ↔ result = .error (.queueOverflow n) := by
  cases result with
  | error e => rfl
  | ok report =>
      refine iff_of_false (fun h => ?_) (fun h => nomatch h)
      rw [saveResult] at h
      split_ifs at h
      rcases hsave : w.cache.save s.faults s.fresh s.now tree with ⟨tree', e | _⟩
      · rw [hsave] at h
        obtain rfl : e = .queueOverflow n := Except.error.inj h
        rw [Cache.save] at hsave
        split at hsave
        · rename_i hwrite
          cases hsave
          exact writeDocument_ne_queueOverflow hwrite rfl
        · exact writeDocument_ne_queueOverflow hsave rfl
      · rw [hsave] at h
        cases h

/-- A pass over a pool at rest fails because of the queue exactly if a task was turned away. -/
lemma conclude_eq_queueOverflow_iff {f : Flight} {n : Nat} (h : w.pool.Rested)
    (hsteps : Flight.Steps s.compiler (flight s sight options w files) f) (hended : f.Ended) :
    (conclude s sight options w files f).2 = .error (.queueOverflow n) ↔
      n = w.pool.capacity ∧ f.Overflown := by
  have halone := ((fresh_flight h).steps hsteps).1
  have hcapacity : f.pool.capacity = w.pool.capacity := halone.alike.capacity
  have hlength : f.outcomes.length = ((passTasks s sight options w files).map Task.path).length := by
    have hleft := halone.left
    rw [hended.1, hended.2] at hleft
    rw [Flight.outcomes, List.length_reverse, List.length_map]
    exact hleft
  have hoverflown : f.Overflown ↔ .error (.queueOverflow w.pool.capacity) ∈ f.outcomes := by
    rw [Flight.Overflown, hended.2, hcapacity, Flight.outcomes, List.mem_reverse]
    simp
  have hall : ∀ o ∈ ((passTasks s sight options w files).map Task.path).zip f.outcomes,
      ConcernsTaskOrQueue w.pool.capacity o.2 := by
    intro o ho
    rw [← hcapacity]
    exact halone.collected _ (List.mem_reverse.1 (List.of_mem_zip (Prod.eta o ▸ ho)).2)
  rw [conclude]
  simp only
  rw [recordAll_eq_error_iff hall, List.map_snd_zip hlength.le, hoverflown,
    BuildError.queueOverflow.injEq]

/-- A pass over a pool at rest can fail because of the queue exactly if the pool has not room for
all tasks that may be under way. -/
lemma exists_ends_queueOverflow_iff (h : w.pool.Rested) {n : Nat} :
    (∃ w', Ends s sight options w files tree w' (.error (.queueOverflow n))) ↔
      n = w.pool.capacity ∧ w.pool.room
        < min (max (options.concurrency.getD w.concurrency) 1)
          (passTasks s sight options w files).length := by
  have hfresh : (flight s sight options w files).Fresh := fresh_flight h
  constructor
  · rintro ⟨w', f, hsteps, hended, -, hresult⟩
    obtain ⟨hn, hover⟩ := (conclude_eq_queueOverflow_iff h hsteps hended).1
      (saveResult_eq_queueOverflow_iff.1 hresult)
    exact ⟨hn, (hfresh.steps hsteps).2 hover⟩
  · rintro ⟨hn, hroom⟩
    have hsteps := Flight.steps_finish s.compiler hfresh.ordered
    have hended := hfresh.ended_finish s.compiler
    have hresult := (conclude_eq_queueOverflow_iff h hsteps hended).2
      ⟨hn, Flight.overflown_finish hfresh s.compiler hroom⟩
    exact ⟨_, _, hsteps, hended, rfl, saveResult_eq_queueOverflow_iff.2 hresult⟩

end Compilation
/-! ## Workshops -/

/-- What passes make of the workshop of a configuration, whatever becomes of its cache meanwhile. -/
inductive Workshop.Operated (config : Config) : Workshop → Prop where
  | start {tree : FileTree} {p : Project} (h : Project.start config tree = .ok p) :
      Operated config p.workshop
  | cache {w : Workshop} (cache : Cache) (h : Operated config w) : Operated config { w with cache }
  | pass {w w' : Workshop} {s : Surroundings} {sight : Sight} {options : CompileOptions}
      {files : List Path} {tree : FileTree} {result : Except BuildError CompileReport}
      (h : Operated config w) (hends : Compilation.Ends s sight options w files tree w' result) :
      Operated config w'

/-- The workshop has the pool of the configuration, at rest. -/
structure Workshop.AtRest (config : Config) (w : Workshop) : Prop where
  rested : w.pool.Rested
  size : w.pool.size = config.workers
  capacity : w.pool.capacity = config.queueCapacity
  concurrency : w.concurrency = max config.concurrency 1

lemma Pool.rested_start {size capacity : Nat} {p : Pool} (h : start size capacity = .ok p) :
    p.Rested where
  sound := sound_start h
  isHealthy := by
    rw [eq_of_start h]
    simp [isHealthy]
  pending := by
    rw [eq_of_start h]
    simp [pending]

namespace Workshop

variable {config : Config} {w : Workshop}

lemma atRest_start {tree : FileTree} {p : Project} (h : Project.start config tree = .ok p) :
    p.workshop.AtRest config := by
  rw [Project.start] at h
  cases hpool : Pool.start config.workers config.queueCapacity with
  | error e =>
      rw [hpool] at h
      cases h
  | ok pool =>
      rw [hpool] at h
      cases h
      refine ⟨Pool.rested_start hpool, ?_, ?_, rfl⟩ <;> rw [Pool.eq_of_start hpool]

/-- **One pass** leaves the pool as it found it, in whatever order its tasks come to their end. -/
lemma AtRest.pass (h : w.AtRest config) {w' : Workshop} {s : Surroundings} {sight : Sight}
    {options : CompileOptions} {files : List Path} {tree : FileTree}
    {result : Except BuildError CompileReport}
    (hends : Compilation.Ends s sight options w files tree w' result) : w'.AtRest config := by
  obtain ⟨f, hsteps, hended, rfl, -⟩ := hends
  have halone := ((Compilation.fresh_flight h.rested).steps hsteps).1
  exact ⟨halone.rested hended, halone.alike.size.trans h.size,
    halone.alike.capacity.trans h.capacity, h.concurrency⟩

/-- **All passes** find the pool of the configuration at rest. -/
theorem Operated.atRest (h : w.Operated config) : w.AtRest config := by
  induction h with
  | start h => exact atRest_start h
  | cache cache _ ih => exact ⟨ih.rested, ih.size, ih.capacity, ih.concurrency⟩
  | pass _ hends ih => exact ih.pass hends

end Workshop

/-! ## Passes of a configuration -/

namespace Compilation

section

variable {config : Config} {s : Surroundings} {sight : Sight} {w : Workshop} {files : List Path}
  {tree : FileTree}

/-- A pass of a project can fail because of the queue exactly if there is room for fewer tasks than
may be under way. -/
lemma exists_ends_queueOverflow_iff_of_atRest (hcheck : config.check = .ok ())
    (hw : w.AtRest config) {n : Nat} :
    (∃ w', Ends s sight {} w files tree w' (.error (.queueOverflow n))) ↔
      n = config.queueCapacity ∧ config.workers + config.queueCapacity
        < min config.concurrency (passTasks s sight {} w files).length := by
  have hconcurrency : 0 < config.concurrency := by
    rw [Config.check] at hcheck
    split_ifs at hcheck
    omega
  have hlimit : max ((none : Option Nat).getD w.concurrency) 1 = config.concurrency := by
    rw [Option.getD_none, hw.concurrency]
    omega
  rw [exists_ends_queueOverflow_iff hw.rested, hlimit, Pool.room, hw.size, hw.capacity]

/-- **A pass overflows its own pool** in some order of its tasks exactly if the workers and the
queue together have not room for all tasks that may be under way. -/
theorem overflows_iff (hcheck : config.check = .ok ()) (hw : w.Operated config) {n : Nat} :
    (∃ w', Ends s sight {} w files tree w' (.error (.queueOverflow n))) ↔
      n = config.queueCapacity ∧ config.workers + config.queueCapacity
        < min config.concurrency (passTasks s sight {} w files).length :=
  exists_ends_queueOverflow_iff_of_atRest hcheck hw.atRest

end

/-! ## A pool that is too small

One worker, one place in the queue, and three files of which all may be under way. -/

namespace Crowded

def surroundings : Surroundings where
  compiler t := .compiled t.content []
  now := ⟨"2024-01-02T03:04:05Z"⟩
  fresh := "0"

def tree : FileTree := .ofTexts [("a", "1"), ("b", "2"), ("c", "3")]

def files : List Path := [⟨"a"⟩, ⟨"b"⟩, ⟨"c"⟩]

/-- One worker, and places for so many tasks in the queue. -/
def config (queueCapacity : Nat) : Config :=
  { Config.defaults ⟨"."⟩ none with queueCapacity, concurrency := 3 }

def workshop (queueCapacity : Nat) : Workshop where
  cache := Cache.load tree (config queueCapacity).cacheDir
  pool := { size := 1, capacity := queueCapacity, workers := [{ id := 0 }], nextWorker := 1 }
  concurrency := 3

lemma operated_one : (workshop 1).Operated (config 1) :=
  .start (p := { config := config 1, tree, workshop := workshop 1 }) rfl

lemma operated_two : (workshop 2).Operated (config 2) :=
  .start (p := { config := config 2, tree, workshop := workshop 2 }) rfl

lemma length_passTasks (queueCapacity : Nat) :
    (passTasks surroundings (fun _ => tree) {} (workshop queueCapacity) files).length = 3 := by
  show (passTasks surroundings (fun _ => tree) {} (workshop 1) files).length = 3
  decide +kernel

end Crowded

/-- With one more place in the queue, the three files are compiled in any order. -/
theorem not_overflows_of_two_places :
    (Crowded.config 2).check = .ok () ∧ (Crowded.workshop 2).Operated (Crowded.config 2) ∧
      ¬∃ n w', Ends Crowded.surroundings (fun _ => Crowded.tree) {} (Crowded.workshop 2)
        Crowded.files Crowded.tree w' (.error (.queueOverflow n)) := by
  refine ⟨rfl, Crowded.operated_two, ?_⟩
  rintro ⟨n, hends⟩
  have hroom := ((overflows_iff rfl Crowded.operated_two).1 hends).2
  rw [Crowded.length_passTasks] at hroom
  exact absurd hroom (by decide)

/-- Not every pass of a configuration that is in order has room for its tasks. -/
theorem not_never_overflows :
    ¬∀ (config : Config) (s : Surroundings) (sight : Sight) (w w' : Workshop) (files : List Path)
      (tree : FileTree) (n : Nat), config.check = .ok () → w.Operated config →
      ¬Ends s sight {} w files tree w' (.error (.queueOverflow n)) := by
  intro hall
  obtain ⟨w', hends⟩ : ∃ w', Ends Crowded.surroundings (fun _ => Crowded.tree) {}
      (Crowded.workshop 1) Crowded.files Crowded.tree w' (.error (.queueOverflow 1)) := by
    rw [exists_ends_queueOverflow_iff_of_atRest rfl Crowded.operated_one.atRest,
      Crowded.length_passTasks]
    decide
  exact hall _ _ _ _ w' _ _ 1 rfl Crowded.operated_one hends

end Compilation
end Rebuild
