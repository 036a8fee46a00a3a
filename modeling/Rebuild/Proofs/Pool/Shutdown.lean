import Mathlib.Algebra.GroupWithZero.Nat
import Mathlib.Algebra.Order.BigOperators.Group.List
import Mathlib.Algebra.Order.Group.Nat
import Rebuild.Proofs.Pool.Handing

/-!
# Shutting down is final

A pool that shuts down has turned away its queue, accepts nothing and hands out nothing.  What is
under way is still done and answered, for as long as there is a pool to tell of it: threads do not
keep their pool alive, so who drops the pool before the last thread is done leaves its task without
an answer.

* **What a thread still does.**  `Pool.Ends` is all that a step changes in a pool that shuts down,
  and `Crew.After` what any number of them change.  Each brings the end nearer (`Crew.toDo`).
* **Custody.**  A `Crew.Custody` notes who has the pool and who has the handles of its threads.
* **Endpoint.**  `shutdown_is_final`, and `not_answerable_after_drop`.
-/

namespace Rebuild

/-! ## Pools that shut down -/

namespace Pool

variable {p p' : Pool} {w : Worker}

/-- One worker is done or gone, and there is nothing else to it. -/
structure Ends (p p' : Pool) (id : Nat) : Prop where
  isShuttingDown : p'.isShuttingDown = true
  nextWorker : p'.nextWorker = p.nextWorker
  respawned : p'.respawned = p.respawned
  others : ∀ id', id' ≠ id → p'.worker? id' = p.worker? id'
  own : ∀ w', p'.worker? id = some w' → ∃ w, p.worker? id = some w ∧ w' = w.rest

lemma ends_report (hshut : p.isShuttingDown = true) (hw : p.worker? w.id = some w) {j : Job}
    (hjob : w.job = some j) (outcome : TaskReport) : p.Ends (p.report w.id outcome) w.id := by
  have hworker := worker?_report hw hjob outcome
  have hnone : p.following? w.id = none := (following?_of_worker? hw).trans (if_pos hshut)
  obtain ⟨-, hshut', hrespawned⟩ := report_eq hw outcome
  refine ⟨hshut'.trans hshut, ?_, hrespawned, fun id hne => ?_, fun w' hw' => ⟨w, hw, ?_⟩⟩
  · rw [report]
    simp only [hw]
    obtain ⟨workers, queue, heq⟩ := exists_takeNext_eq _ w.id
    rw [heq, hjob]
    rfl
  · rw [hworker, if_neg hne]
  · rw [hworker, if_pos rfl, hnone] at hw'
    exact (Option.some.inj hw').symm

lemma ends_crash (hshut : p.isShuttingDown = true) (hw : p.worker? w.id = some w)
    (message : Option String) : p.Ends (p.crash w.id message) w.id := by
  rw [crash_eq hw, if_pos hshut]
  refine ⟨hshut, rfl, rfl, fun id hne => ?_, fun w' hw' => ?_⟩
  · rw [worker?_without, if_neg hne]
  · rw [worker?_without, if_pos rfl] at hw'
    cases hw'

lemma ends_conclude (hshut : p.isShuttingDown = true) {d : Judgement}
    (hw : p.worker? d.worker = some w) (hjob : w.job = some d.job) :
    p.Ends (p.conclude d.worker d.job.task.id d.verdict) d.worker := by
  obtain ⟨id, j, v⟩ := d
  obtain ⟨-, rfl⟩ := mem_of_worker? hw
  cases v with
  | compiled output dependencies => exact ends_report hshut hw hjob _
  | refused message => exact ends_report hshut hw hjob _
  | crashed message => exact ends_crash hshut hw message

/-- A second shutdown finds nothing to do. -/
lemma beginShutdown_eq_self (hshut : p.isShuttingDown = true) (hqueue : p.queue = [])
    (hclosed : ∀ w ∈ p.workers, w.isOpen = false) : p.beginShutdown = p := by
  have hworkers : p.workers.map (fun w => { w with isOpen := false }) = p.workers := by
    refine (List.map_congr_left fun w hw => ?_).trans (List.map_id _)
    rw [id, ← hclosed w hw]
  rw [beginShutdown, hworkers, hqueue, ← hshut]
  obtain ⟨size, capacity, workers, queue, shut, nextWorker, nextTicket, completed, failed,
    respawned, answers⟩ := p
  obtain rfl : queue = [] := hqueue
  rfl

end Pool

/-! ## What is left to do -/

/-- How many steps a thread has left at most, if it gets no more tasks. -/
def WorkerThread.toDo (t : WorkerThread) : Nat :=
  3 * t.channel.length + match t.doing with
    | .closed => 1
    | .listening => 2
    | .telling _ _ => 3
    | .compiling _ => 4

namespace Crew

variable {c c' c'' : Crew}

/-- How many steps all threads have left at most. -/
def toDo (c : Crew) : Nat :=
  ((List.range c.pool.nextWorker).map fun id => (c.threads id).elim 0 WorkerThread.toDo).sum

lemma Good.id_lt (h : c.Good) {id : Nat} {t : WorkerThread} (ht : c.threads id = some t) :
    id < c.pool.nextWorker := by
  obtain ⟨w, hw, -⟩ := h.manned.exists_worker ht
  obtain ⟨hmem, rfl⟩ := Pool.mem_of_worker? hw
  exact h.sound.id_lt w hmem

/-- One thread has less to do, and so there is less to do. -/
lemma Good.toDo_lt (h : c.Good) {id : Nat} {t : WorkerThread} (t' : Option WorkerThread)
    (ht : c.threads id = some t) (hless : t'.elim 0 WorkerThread.toDo < t.toDo)
    (hthreads : c'.threads = Function.update c.threads id t')
    (hnext : c'.pool.nextWorker = c.pool.nextWorker) : c'.toDo < c.toDo := by
  have hid : (c'.threads id).elim 0 WorkerThread.toDo
      < (c.threads id).elim 0 WorkerThread.toDo := by
    rw [hthreads, Function.update_self, ht]
    exact hless
  rw [toDo, toDo, hnext]
  refine List.sum_lt_sum _ _ (fun id' _ => ?_) ⟨id, List.mem_range.2 (h.id_lt ht), hid⟩
  by_cases heq : id' = id
  · exact heq ▸ Nat.le_of_lt hid
  · rw [hthreads, Function.update_of_ne heq]

/-! ## What happens after the shutdown -/

/-- What can have happened between two moments after the shutdown. -/
structure After (c c' : Crew) : Prop where
  isShuttingDown : c'.pool.isShuttingDown = true
  accepted : c'.accepted = c.accepted
  turnedAway : c'.turnedAway = c.turnedAway
  nextWorker : c'.pool.nextWorker = c.pool.nextWorker
  respawned : c'.pool.respawned = c.pool.respawned
  said : c.said <+: c'.said
  answers : c.pool.answers <:+ c'.pool.answers
  workers : ∀ id w', c'.pool.worker? id = some w' →
    ∃ w, c.pool.worker? id = some w ∧ (w' = w ∨ w' = w.rest)
  threads : ∀ id, c.threads id = none → c'.threads id = none
  inFlight : ∀ id w j, c.pool.worker? id = some w → w.job = some j →
    c'.pool.worker? id = some w
      ∨ ∃ v, ⟨id, j, v⟩ ∈ c'.said ∧ (j.ticket, Judgement.outcome ⟨id, j, v⟩) ∈ c'.pool.answers

lemma After.of_pool (hshut : c.pool.isShuttingDown = true) (haccepted : c'.accepted = c.accepted)
    (hturned : c'.turnedAway = c.turnedAway) (hpool : c'.pool = c.pool)
    (hsaid : c.said <+: c'.said) (hthreads : ∀ id, c.threads id = none → c'.threads id = none) :
    c.After c' where
  isShuttingDown := hpool ▸ hshut
  accepted := haccepted
  turnedAway := hturned
  nextWorker := by rw [hpool]
  respawned := by rw [hpool]
  said := hsaid
  answers := hpool ▸ List.suffix_refl _
  workers id w hw := ⟨w, hpool ▸ hw, .inl rfl⟩
  threads := hthreads
  inFlight id w j hw _ := .inl (hpool ▸ hw)

lemma After.refl (hshut : c.pool.isShuttingDown = true) : c.After c :=
  .of_pool hshut rfl rfl rfl (List.prefix_refl _) fun _ hnone => hnone

lemma After.trans (h : c.After c') (h' : c'.After c'') : c.After c'' where
  isShuttingDown := h'.isShuttingDown
  accepted := h'.accepted.trans h.accepted
  turnedAway := h'.turnedAway.trans h.turnedAway
  nextWorker := h'.nextWorker.trans h.nextWorker
  respawned := h'.respawned.trans h.respawned
  said := h.said.trans h'.said
  answers := h.answers.trans h'.answers
  workers id w'' hw'' := by
    obtain ⟨w', hw', hlast⟩ := h'.workers id w'' hw''
    obtain ⟨w, hw, hfirst⟩ := h.workers id w' hw'
    refine ⟨w, hw, ?_⟩
    rcases hfirst with rfl | rfl
    · exact hlast
    · rcases hlast with rfl | rfl <;> exact .inr rfl
  threads id hnone := h'.threads id (h.threads id hnone)
  inFlight id w j hw hjob := by
    rcases h.inFlight id w j hw hjob with hw' | ⟨v, hsaid, hanswer⟩
    · exact h'.inFlight id w j hw' hjob
    · exact .inr ⟨v, h'.said.subset hsaid, h'.answers.subset hanswer⟩

/-- The thread of one worker goes on, with what its pool makes of it. -/
lemma After.of_ends {id : Nat} (hends : c.pool.Ends c'.pool id)
    (haccepted : c'.accepted = c.accepted) (hturned : c'.turnedAway = c.turnedAway)
    (hsaid : c'.said = c.said) (hanswers : c.pool.answers <:+ c'.pool.answers)
    (hthreads : ∀ id, c.threads id = none → c'.threads id = none)
    (hended : ∀ w j, c.pool.worker? id = some w → w.job = some j →
      ∃ v, ⟨id, j, v⟩ ∈ c'.said ∧ (j.ticket, Judgement.outcome ⟨id, j, v⟩) ∈ c'.pool.answers) :
    c.After c' where
  isShuttingDown := hends.isShuttingDown
  accepted := haccepted
  turnedAway := hturned
  nextWorker := hends.nextWorker
  respawned := hends.respawned
  said := hsaid ▸ List.prefix_refl _
  answers := hanswers
  workers id' w' hw' := by
    by_cases hid : id' = id
    · obtain ⟨w, hw, hrest⟩ := hends.own w' (hid ▸ hw')
      exact ⟨w, hid ▸ hw, .inr hrest⟩
    · exact ⟨w', hends.others id' hid ▸ hw', .inl rfl⟩
  threads := hthreads
  inFlight id' w j hw hjob := by
    by_cases hid : id' = id
    · subst hid
      exact .inr (hended w j hw hjob)
    · exact .inl ((hends.others id' hid).trans hw)

/-! ## One step after the shutdown -/

lemma threadsWithout_of_shut (hshut : c.pool.isShuttingDown = true) (id : Nat) :
    c.threadsWithout id = Function.update c.threads id none :=
  if_pos (by simp [hshut])

/-- A thread that has told the pool of its task gets no other. -/
lemma exists_threadsAfter_eq (hshut : c.pool.isShuttingDown = true) (d : Judgement) :
    ∃ t', c.threadsAfter d [] = Function.update c.threads d.worker t'
      ∧ t'.elim 0 WorkerThread.toDo < 3 := by
  rw [threadsAfter]
  split_ifs
  · exact ⟨none, threadsWithout_of_shut hshut d.worker, by decide⟩
  · have hnone : c.pool.following? d.worker = none := by
      rw [Pool.following?, Pool.next?, if_pos hshut]
      cases c.pool.worker? d.worker <;> rfl
    rw [hnone]
    exact ⟨_, rfl, by decide⟩

lemma threads_update {threads : Nat → Option WorkerThread} {id : Nat} {t : WorkerThread}
    (ht : threads id = some t) (t' : Option WorkerThread) (id' : Nat) (hnone : threads id' = none) :
    Function.update threads id t' id' = none := by
  rw [Function.update_of_ne, hnone]
  rintro rfl
  cases ht.symm.trans hnone

lemma Good.after_tell (h : c.Good) (hshut : c.pool.isShuttingDown = true) {id : Nat} {j : Job}
    {v : Verdict} {channel : List Job} (ht : c.threads id = some ⟨channel, .telling j v⟩)
    (hc' : c' = { c with
      pool := c.pool.conclude id j.task.id v
      threads := c.threadsAfter ⟨id, j, v⟩ channel
      told := c.told ++ [⟨id, j, v⟩] }) : c.After c' ∧ c'.toDo < c.toDo := by
  obtain ⟨w, hw, hserves⟩ := h.manned.exists_worker ht
  obtain ⟨hjob, hchannel⟩ := hserves.job_eq (j := j) rfl
  obtain rfl : channel = [] := hchannel
  have hends := Pool.ends_conclude hshut (d := ⟨id, j, v⟩) hw hjob
  have hanswers := (Pool.SoundBut.conclude h.sound (d := ⟨id, j, v⟩) hw hjob).answers
  obtain ⟨t', hthreads, hless⟩ := exists_threadsAfter_eq hshut ⟨id, j, v⟩
  subst hc'
  refine ⟨.of_ends hends rfl rfl rfl ⟨[_], hanswers.symm⟩ (fun id' hnone => ?_)
    fun u i hu hi => ?_, h.toDo_lt t' ht hless hthreads hends.nextWorker⟩
  · show c.threadsAfter ⟨id, j, v⟩ [] id' = none
    rw [hthreads]
    exact threads_update ht t' id' hnone
  · cases hw.symm.trans hu
    cases hjob.symm.trans hi
    refine ⟨v, h.heard id _ j v ht rfl, ?_⟩
    show _ ∈ (c.pool.conclude id j.task.id v).answers
    rw [hanswers]
    exact List.mem_cons_self

lemma Good.after_leave (h : c.Good) {id : Nat} {channel : List Job}
    (ht : c.threads id = some ⟨channel, .closed⟩)
    (hc' : c' = { c with pool := c.pool.crash id none, threads := c.threadsWithout id }) :
    c.After c' ∧ c'.toDo < c.toDo := by
  obtain ⟨w, hw, hidle, hshut⟩ := h.of_closed ht
  obtain ⟨-, rfl⟩ := Pool.mem_of_worker? hw
  have hends := Pool.ends_crash hshut hw none
  have hthreads := threadsWithout_of_shut hshut w.id
  have hless : 0 < WorkerThread.toDo ⟨channel, .closed⟩ :=
    Nat.lt_of_lt_of_le Nat.one_pos (Nat.le_add_left _ _)
  subst hc'
  refine ⟨.of_ends hends rfl rfl rfl ?_ (fun id' hnone => ?_) fun u i hu hi => ?_,
    h.toDo_lt none ht hless hthreads hends.nextWorker⟩
  · have hcrash := Pool.crash_idle hshut hw hidle none
    exact hcrash ▸ List.suffix_refl _
  · show c.threadsWithout w.id id' = none
    rw [hthreads]
    exact threads_update ht none id' hnone
  · cases hw.symm.trans hu
    cases hidle.symm.trans hi

/-- **After the shutdown** each step but a second shutdown, which changes nothing, brings the end
nearer. -/
lemma Good.after_step (h : c.Good) (hshut : c.pool.isShuttingDown = true)
    (hclosed : ∀ w ∈ c.pool.workers, w.isOpen = false) (hstep : Step c c') :
    c.After c' ∧ (c' = c ∨ c'.toDo < c.toDo) := by
  -- Threads among themselves: one of them has less to do, and the pool stays as it is.
  have hapart : ∀ {id t t' said}, c.threads id = some t → t'.toDo < t.toDo → c.said <+: said →
      c.After { c with threads := Function.update c.threads id (some t'), said }
        ∧ toDo { c with threads := Function.update c.threads id (some t'), said } < c.toDo :=
    fun ht hless hsaid => ⟨.of_pool hshut rfl rfl rfl hsaid (threads_update ht _),
      h.toDo_lt (some _) ht hless rfl rfl⟩
  cases hstep with
  | submit task hsubmit =>
      rw [Pool.submit, if_pos hshut] at hsubmit
      cases hsubmit
  | receive id ht =>
      refine (hapart ht ?_ (List.prefix_refl _)).imp_right .inr
      simp only [WorkerThread.toDo, List.length_cons]
      omega
  | judge id v ht =>
      refine (hapart ht ?_ (List.prefix_append _ _)).imp_right .inr
      simp only [WorkerThread.toDo]
      omega
  | tell id ht => exact (h.after_tell hshut ht rfl).imp_right .inr
  | shutdown =>
      rw [Pool.beginShutdown_eq_self hshut (h.sound.closed hshut) hclosed, if_pos hshut]
      exact ⟨.refl hshut, .inl rfl⟩
  | hangUp id _ ht => exact (hapart ht (by decide) (List.prefix_refl _)).imp_right .inr
  | leave id ht => exact (h.after_leave ht rfl).imp_right .inr

/-- While an accepted task is not answered, there is a step that brings the end nearer. -/
lemma Good.exists_nearer (h : c.Good) (hshut : c.pool.isShuttingDown = true) {j : Job}
    (hj : j ∈ c.accepted) (hopen : c.pool.answer? j.ticket = none) :
    ∃ c', Step c c' ∧ c.After c' ∧ c'.toDo < c.toDo := by
  obtain ⟨id, ⟨channel, doing⟩, ht, hjobs, hdoing⟩ := h.exists_working hj hopen
  cases doing with
  | listening =>
      cases channel with
      | nil => exact absurd rfl hjobs
      | cons i channel =>
          refine ⟨_, .receive id ht,
            .of_pool hshut rfl rfl rfl (List.prefix_refl _) (threads_update ht _), ?_⟩
          refine h.toDo_lt (some _) ht ?_ rfl rfl
          simp only [Option.elim_some, WorkerThread.toDo, List.length_cons]
          omega
  | compiling i =>
      refine ⟨_, .judge id (.refused "") ht,
        .of_pool hshut rfl rfl rfl (List.prefix_append _ _) (threads_update ht _), ?_⟩
      refine h.toDo_lt (some _) ht ?_ rfl rfl
      simp only [Option.elim_some, WorkerThread.toDo]
      omega
  | telling i v => exact ⟨_, .tell id ht, h.after_tell hshut ht rfl⟩
  | closed => exact absurd rfl hdoing

/-! ## Custody -/

/-- A crew, with who has its pool and the handles of its threads. -/
structure Custody where
  crew : Crew
  /-- The numbers of the workers with the handle of their thread. -/
  handles : List Nat
  /-- What every shutdown returned: how many tasks it turned away, and the handles that it took. -/
  returned : List (Nat × List Nat) := []
  /-- The pool was not dropped. -/
  isOwned : Bool := true
  /-- Nobody has the pool any more. -/
  isGone : Bool := false

namespace Custody

/-- A pool whose threads have just been started. -/
def opening (p : Pool) : Custody where
  crew := Crew.opening p
  handles := p.workers.map Worker.id

/-- The crew has gone on.  A new worker comes with a handle, and who goes takes it along. -/
def next (s : Custody) (c' : Crew) : Custody :=
  { s with
    crew := c'
    handles := (c'.pool.workers.map Worker.id).filter fun id =>
      id ∈ s.handles ∨ id ∉ s.crew.pool.workers.map Worker.id }

/-- The pool begins to shut down, and returns all handles that are left. -/
def shutdown (s : Custody) : Custody :=
  { s with
    crew := { s.crew with
      pool := s.crew.pool.beginShutdown
      turnedAway := if s.crew.pool.isShuttingDown then s.crew.turnedAway
        else s.crew.turnedAway ++ s.crew.pool.queue }
    handles := []
    returned := s.returned ++ [(s.crew.pool.queue.length, s.handles)] }

/-- What can happen to a pool, its threads and who has it. -/
inductive Step : Custody → Custody → Prop where
  /-- Callers and threads go on, but for shutdowns. -/
  | work {s : Custody} {c' : Crew} (hhere : s.isGone = false) (h : Crew.Step s.crew c')
      (hshut : c'.pool.isShuttingDown = s.crew.pool.isShuttingDown) : Step s (s.next c')
  | shutdown {s : Custody} (howned : s.isOwned = true) : Step s s.shutdown
  /-- Who drops a pool shuts it down. -/
  | drop {s : Custody} (howned : s.isOwned = true) : Step s { s.shutdown with isOwned := false }
  /-- A dropped pool is gone as soon as no thread is just telling it something. -/
  | vanish {s : Custody} (hdropped : s.isOwned = false) : Step s { s with isGone := true }
  /-- Without a pool threads can do no more than come to an end. -/
  | drift {s : Custody} {threads : Nat → Option WorkerThread} {said : List Judgement}
      (hgone : s.isGone = true) (hthreads : ∀ id, s.crew.threads id = none → threads id = none)
      (hsaid : s.crew.said <+: said) : Step s { s with crew := { s.crew with threads, said } }

/-- Any number of steps. -/
abbrev Steps : Custody → Custody → Prop := Relation.ReflTransGen Step

variable {s s' : Custody}

/-- What holds at any point. -/
structure Good (s : Custody) : Prop where
  sound : s.crew.pool.Sound
  ledger : s.crew.Ledger
  crew : s.isGone = false → s.crew.Good
  owned : s.isOwned = true → s.isGone = false
  dropped : s.isOwned = false → s.crew.pool.isShuttingDown = true
  turnedAway : s.crew.pool.isShuttingDown = false → s.crew.turnedAway = []
  closed : s.crew.pool.isShuttingDown = true → ∀ w ∈ s.crew.pool.workers, w.isOpen = false
  handles : s.handles =
    if s.crew.pool.isShuttingDown then [] else s.crew.pool.workers.map Worker.id
  returned : s.crew.pool.isShuttingDown = false → s.returned = []
  nodup_returned : (s.returned.flatMap Prod.snd).Nodup

lemma Good.not_gone (h : s.Good) (hopen : s.crew.pool.isShuttingDown = false) :
    s.isOwned = true ∧ s.isGone = false := by
  have howned : s.isOwned = true := by
    by_contra hdropped
    exact absurd (hopen.symm.trans (h.dropped (Bool.eq_false_iff.2 hdropped))) (by simp)
  exact ⟨howned, h.owned howned⟩

/-- After the shutdown no worker is new, so none comes with a handle. -/
lemma Good.handles_next (h : s.Good) (hshut : s.crew.pool.isShuttingDown = true) {c' : Crew}
    (hafter : s.crew.After c') (hsound : c'.pool.Sound) : (s.next c').handles = [] := by
  rw [next, List.filter_eq_nil_iff]
  intro id hid
  obtain ⟨w', hw', rfl⟩ := List.mem_map.1 hid
  obtain ⟨w, hw, -⟩ := hafter.workers w'.id w' (Pool.worker?_of_mem hsound.nodup_ids hw')
  obtain ⟨hmem, hid⟩ := Pool.mem_of_worker? hw
  have hhandles := h.handles
  rw [if_pos hshut] at hhandles
  simpa [hhandles] using ⟨w, hmem, hid⟩

lemma turnedAway_of_step {c c' : Crew} (hopen : c.pool.isShuttingDown = false)
    (hshut : c'.pool.isShuttingDown = c.pool.isShuttingDown) (hstep : Crew.Step c c') :
    c'.turnedAway = c.turnedAway := by
  cases hstep with
  | shutdown => cases hshut.trans hopen
  | _ => rfl

lemma Good.work (h : s.Good) (hhere : s.isGone = false) {c' : Crew} (hstep : Crew.Step s.crew c')
    (hshut : c'.pool.isShuttingDown = s.crew.pool.isShuttingDown) : (s.next c').Good := by
  have hcrew := h.crew hhere
  have hcrew' := hcrew.step hstep
  -- After the shutdown workers only stay or go; before it, each has its handle.
  cases hopen : s.crew.pool.isShuttingDown with
  | true =>
      obtain ⟨hafter, -⟩ := hcrew.after_step hopen (h.closed hopen) hstep
      have hopen' := hshut.trans hopen
      refine ⟨hcrew'.sound, hcrew'.ledger, fun _ => hcrew', h.owned, fun _ => hopen',
        fun hfalse => absurd (hopen'.symm.trans hfalse) (by simp), fun _ w' hw' => ?_, ?_,
        fun hfalse => absurd (hopen'.symm.trans hfalse) (by simp), h.nodup_returned⟩
      · obtain ⟨w, hw, hsame⟩ :=
          hafter.workers w'.id w' (Pool.worker?_of_mem hcrew'.sound.nodup_ids hw')
        have hclosed := h.closed hopen w (Pool.mem_of_worker? hw).1
        rcases hsame with rfl | rfl <;> exact hclosed
      · exact (h.handles_next hopen hafter hcrew'.sound).trans (if_pos hopen').symm
  | false =>
      have hopen' := hshut.trans hopen
      have hhandles := h.handles
      rw [hopen, if_neg Bool.false_ne_true] at hhandles
      refine ⟨hcrew'.sound, hcrew'.ledger, fun _ => hcrew', h.owned,
        fun hdropped => absurd (hopen.symm.trans (h.dropped hdropped)) (by simp),
        fun _ => (turnedAway_of_step hopen hshut hstep).trans (h.turnedAway hopen),
        fun htrue => absurd (hopen'.symm.trans htrue) (by simp), ?_, fun _ => h.returned hopen,
        h.nodup_returned⟩
      show (s.next c').handles = if c'.pool.isShuttingDown then [] else _
      rw [hopen', if_neg Bool.false_ne_true, next, hhandles]
      exact List.filter_eq_self.2 fun id _ => decide_eq_true (Classical.em _)

lemma Good.shutdown (h : s.Good) (howned : s.isOwned = true) (isOwned : Bool) :
    Good { s.shutdown with isOwned } := by
  have hcrew := h.crew (h.owned howned)
  have hcrew' := hcrew.step .shutdown
  refine ⟨hcrew'.sound, hcrew'.ledger, fun _ => hcrew', fun _ => h.owned howned, fun _ => rfl,
    fun hfalse => (by cases hfalse), fun _ w' hw' => ?_, rfl, fun hfalse => (by cases hfalse), ?_⟩
  · obtain ⟨w, -, rfl⟩ := List.mem_map.1 hw'
    rfl
  · -- The first shutdown takes all handles, and so leaves none to any other.
    show ((s.returned ++ [(_, s.handles)]).flatMap Prod.snd).Nodup
    rw [h.handles, List.flatMap_append, List.flatMap_singleton]
    split_ifs with hshut
    · rw [List.append_nil]
      exact h.nodup_returned
    · rw [h.returned (Bool.eq_false_iff.2 hshut)]
      exact h.sound.nodup_ids

/-- **Every step keeps what holds of custody.** -/
lemma Good.step (h : s.Good) (hstep : Step s s') : s'.Good := by
  cases hstep with
  | work hhere hcrew hshut => exact h.work hhere hcrew hshut
  | shutdown howned => exact h.shutdown howned s.isOwned
  | drop howned => exact h.shutdown howned false
  | vanish hdropped =>
      exact ⟨h.sound, h.ledger, fun hhere => (by cases hhere),
        fun howned => absurd (hdropped.symm.trans howned) (by simp), h.dropped, h.turnedAway,
        h.closed, h.handles, h.returned, h.nodup_returned⟩
  | drift hgone hthreads hsaid =>
      exact ⟨h.sound, h.ledger.apart _ _, fun hhere => absurd (hgone.symm.trans hhere) (by simp),
        h.owned, h.dropped, h.turnedAway, h.closed, h.handles, h.returned, h.nodup_returned⟩

lemma Good.steps (h : s.Good) (hsteps : Steps s s') : s'.Good := by
  induction hsteps with
  | refl => exact h
  | tail _ hstep ih => exact ih.step hstep

lemma good_opening {size capacity : Nat} {p : Pool} (h : Pool.start size capacity = .ok p) :
    (opening p).Good := by
  have hcrew := Crew.good_opening h
  have hopen : p.isShuttingDown = false := by rw [Pool.eq_of_start h]
  refine ⟨hcrew.sound, hcrew.ledger, fun _ => hcrew, fun _ => rfl,
    fun hdropped => (by cases hdropped), fun _ => rfl,
    fun hshut => absurd (hopen.symm.trans hshut) (by simp), ?_, fun _ => rfl, List.nodup_nil⟩
  show p.workers.map Worker.id = if p.isShuttingDown then [] else _
  rw [hopen]
  rfl

/-! ## Custody after the shutdown -/

/-- What can have happened between two moments after the shutdown. -/
structure Later (s s' : Custody) : Prop where
  after : s.crew.After s'.crew
  returned : ∃ n, s'.returned = s.returned ++ List.replicate n (0, [])
  gone : s.isGone = true → s'.isGone = true ∧ s'.crew.pool = s.crew.pool

lemma Later.refl (hshut : s.crew.pool.isShuttingDown = true) : s.Later s :=
  ⟨.refl hshut, ⟨0, (List.append_nil _).symm⟩, fun hgone => ⟨hgone, rfl⟩⟩

lemma Later.trans {s'' : Custody} (h : s.Later s') (h' : s'.Later s'') : s.Later s'' := by
  obtain ⟨n, hn⟩ := h.returned
  obtain ⟨m, hm⟩ := h'.returned
  refine ⟨h.after.trans h'.after, ⟨n + m, ?_⟩, fun hgone => ?_⟩
  · rw [hm, hn, List.append_assoc, List.replicate_append_replicate]
  · obtain ⟨hgone', hpool⟩ := h.gone hgone
    exact ⟨(h'.gone hgone').1, (h'.gone hgone').2.trans hpool⟩

/-- A second shutdown returns nothing. -/
lemma Good.shutdown_again (h : s.Good) (hshut : s.crew.pool.isShuttingDown = true) :
    s.shutdown = { s with returned := s.returned ++ [(0, [])] } := by
  have hqueue := h.sound.closed hshut
  have hhandles := h.handles
  rw [if_pos hshut] at hhandles
  rw [Custody.shutdown, Pool.beginShutdown_eq_self hshut hqueue (h.closed hshut), if_pos hshut,
    hqueue]
  obtain ⟨crew, handles, returned, isOwned, isGone⟩ := s
  obtain rfl : handles = [] := hhandles
  rfl

lemma Good.later_step (h : s.Good) (hshut : s.crew.pool.isShuttingDown = true)
    (hstep : Step s s') : s.Later s' := by
  have hagain := h.shutdown_again hshut
  cases hstep with
  | work hhere hcrew hshut' =>
      obtain ⟨hafter, -⟩ := (h.crew hhere).after_step hshut (h.closed hshut) hcrew
      exact ⟨hafter, ⟨0, (List.append_nil _).symm⟩,
        fun hgone => absurd (hgone.symm.trans hhere) (by simp)⟩
  | shutdown howned =>
      rw [hagain]
      exact ⟨.refl hshut, ⟨1, rfl⟩, fun hgone => ⟨hgone, rfl⟩⟩
  | drop howned =>
      rw [hagain]
      exact ⟨.refl hshut, ⟨1, rfl⟩, fun hgone => ⟨hgone, rfl⟩⟩
  | vanish hdropped =>
      exact ⟨.refl hshut, ⟨0, (List.append_nil _).symm⟩, fun _ => ⟨rfl, rfl⟩⟩
  | drift hgone hthreads hsaid =>
      exact ⟨.of_pool hshut rfl rfl rfl hsaid hthreads, ⟨0, (List.append_nil _).symm⟩,
        fun _ => ⟨hgone, rfl⟩⟩

lemma Good.later_steps (h : s.Good) (hshut : s.crew.pool.isShuttingDown = true)
    (hsteps : Steps s s') : s.Later s' := by
  induction hsteps with
  | refl => exact .refl hshut
  | tail hbefore hstep ih =>
      exact ih.trans ((h.steps hbefore).later_step ih.after.isShuttingDown hstep)

/-! ## Who is under way -/

/-- It can still come to an answer. -/
def Answerable (s : Custody) (j : Job) : Prop :=
  ∃ s', Steps s s' ∧ s'.crew.pool.answer? j.ticket ≠ none

/-- As long as there is a pool, the threads bring its end nearer until all tasks are answered. -/
lemma Good.answerable {s : Custody} (h : s.Good) (hshut : s.crew.pool.isShuttingDown = true)
    (hhere : s.isGone = false) {j : Job} (hj : j ∈ s.crew.accepted) : s.Answerable j := by
  by_cases hopen : s.crew.pool.answer? j.ticket = none
  · obtain ⟨c', hstep, hafter, hless⟩ := (h.crew hhere).exists_nearer hshut hj hopen
    have hwork : Step s (s.next c') :=
      .work hhere hstep (hafter.isShuttingDown.trans hshut.symm)
    obtain ⟨s', hsteps, hanswered⟩ :=
      (h.step hwork).answerable hafter.isShuttingDown hhere (hafter.accepted ▸ hj)
    exact ⟨s', .head hwork hsteps, hanswered⟩
  · exact ⟨s, .refl, hopen⟩
termination_by s.crew.toDo

/-- A worker that had a task at the shutdown is done with it, or still has it. -/
inductive Fate (s s' : Custody) (w : Worker) (j : Job) : Prop where
  /-- The answer is what its compiler said of this very task: its own result, or its own fault. -/
  | answered (v : Verdict) (hsaid : ⟨w.id, j, v⟩ ∈ s'.crew.said)
      (h : s'.crew.pool.answer? j.ticket = some (Judgement.outcome ⟨w.id, j, v⟩))
  /-- It is not answered in any other way, and as long as there is a pool the thread has it. -/
  | underWay (hw : s'.crew.pool.worker? w.id = some w)
      (h : s'.crew.pool.answer? j.ticket = none)
      (hthread : s'.isGone = false → ∃ t, s'.crew.threads w.id = some t ∧ t.jobs = [j])

lemma Good.fate (h : s'.Good) (hafter : s.crew.After s'.crew) {w : Worker} {j : Job}
    (hw : s.crew.pool.worker? w.id = some w) (hjob : w.job = some j) : Fate s s' w j := by
  rcases hafter.inFlight w.id w j hw hjob with hw' | ⟨v, hsaid, hanswer⟩
  · have hmem := (Pool.mem_of_worker? hw').1
    refine .underWay hw' (h.sound.booked.unanswered j ?_) fun hhere => ?_
    · exact List.mem_append_left _ (List.mem_filterMap.2 ⟨w, hmem, hjob⟩)
    · obtain ⟨t, ht, hjobs⟩ := (h.crew hhere).accounted.held w hmem
      exact ⟨t, ht, by rw [hjobs, hjob]; rfl⟩
  · exact .answered v hsaid (h.ledger.answer?_eq hanswer)

/-! ## Pools from their start on -/

/-- What the step does in which a pool begins to shut down. -/
structure Closes (s s' : Custody) : Prop where
  queue : s'.crew.pool.queue = []
  turnedAway : s'.crew.turnedAway = s.crew.pool.queue
  /-- Nothing happens to what is under way. -/
  workers : s'.crew.pool.workers = s.crew.pool.workers.map fun w => { w with isOpen := false }
  threads : s'.crew.threads = s.crew.threads
  /-- It returns how many tasks it turned away, and the handle of every thread. -/
  returned : s'.returned = [(s.crew.pool.queue.length, s.crew.pool.workers.map Worker.id)]
  here : s'.isGone = false

/-- What holds at any later moment `s'`, from any moment `s` after the shutdown on. -/
structure Final (s s' : Custody) : Prop where
  queue : s'.crew.pool.queue = []
  refuses : ∀ task, s'.crew.pool.submit task = .error .poolShuttingDown
  turnedAway : s'.crew.turnedAway = s.crew.turnedAway
  refused : ∀ j ∈ s'.crew.turnedAway,
    s'.crew.pool.answer? j.ticket = some (.error .poolShuttingDown)
  /-- No worker is new, and none gets a task. -/
  workers : ∀ id w', s'.crew.pool.worker? id = some w' →
    ∃ w, s.crew.pool.worker? id = some w ∧ (w' = w ∨ w' = w.rest)
  threads : ∀ id, s.crew.threads id = none → s'.crew.threads id = none
  respawned : s'.crew.pool.respawned = s.crew.pool.respawned
  /-- Answers stay. -/
  answers : s.crew.pool.answers <:+ s'.crew.pool.answers
  inFlight : ∀ w ∈ s.crew.pool.workers, ∀ j, w.job = some j → Fate s s' w j
  /-- As long as there is a pool, every accepted task can still come to its answer. -/
  answerable : s'.isGone = false → ∀ j ∈ s'.crew.accepted, s'.Answerable j
  /-- Nor can this be put off: every step that changes something leaves less to do. -/
  nearer : ∀ s'', Step s' s'' → s''.isGone = false →
    s''.crew = s'.crew ∨ s''.crew.toDo < s'.crew.toDo
  /-- There is a pool until it is dropped, and once it is gone nothing is answered any more. -/
  owned : s'.isOwned = true → s'.isGone = false
  gone : s.isGone = true → s'.isGone = true ∧ s'.crew.pool = s.crew.pool
  /-- Further shutdowns turn nobody away and take no handle. -/
  returned : ∃ n, s'.returned = s.returned ++ List.replicate n (0, [])
  handles : (s'.returned.flatMap Prod.snd).Nodup

lemma Good.closes (h : s.Good) (hopen : s.crew.pool.isShuttingDown = false) (hstep : Step s s')
    (hshut : s'.crew.pool.isShuttingDown = true) : s.Closes s' := by
  have hreturned : s.shutdown.returned
      = [(s.crew.pool.queue.length, s.crew.pool.workers.map Worker.id)] := by
    rw [Custody.shutdown, h.returned hopen, h.handles, hopen]
    rfl
  have hturned : s.shutdown.crew.turnedAway = s.crew.pool.queue := by
    rw [Custody.shutdown, h.turnedAway hopen, hopen]
    rfl
  obtain ⟨-, hhere⟩ := h.not_gone hopen
  cases hstep with
  | work _ _ hsame => exact absurd (hshut.symm.trans (hsame.trans hopen)) (by simp)
  | shutdown howned => exact ⟨rfl, hturned, rfl, rfl, hreturned, hhere⟩
  | drop howned => exact ⟨rfl, hturned, rfl, rfl, hreturned, hhere⟩
  | vanish hdropped => exact absurd (hopen.symm.trans hshut) (by simp)
  | drift hgone _ _ => exact absurd (hgone.symm.trans hhere) (by simp)

lemma Good.nearer (h : s.Good) (hshut : s.crew.pool.isShuttingDown = true) (hstep : Step s s')
    (hhere' : s'.isGone = false) : s'.crew = s.crew ∨ s'.crew.toDo < s.crew.toDo := by
  have hagain := h.shutdown_again hshut
  cases hstep with
  | work hhere hcrew _ => exact ((h.crew hhere).after_step hshut (h.closed hshut) hcrew).2
  | shutdown howned =>
      rw [hagain]
      exact .inl rfl
  | drop howned =>
      rw [hagain]
      exact .inl rfl
  | vanish hdropped => exact .inl rfl
  | drift hgone _ _ => exact absurd (hgone.symm.trans hhere') (by simp)

lemma Good.final (h : s.Good) (hshut : s.crew.pool.isShuttingDown = true) (hsteps : Steps s s') :
    s.Final s' := by
  have h' := h.steps hsteps
  obtain ⟨hafter, hreturned, hgone⟩ := h.later_steps hshut hsteps
  have hshut' := hafter.isShuttingDown
  exact {
    queue := h'.sound.closed hshut'
    refuses := fun task => by rw [Pool.submit, if_pos hshut']
    turnedAway := hafter.turnedAway
    refused := fun j hj => h'.ledger.answer?_eq
      (h'.ledger.answers.mem_iff.2 (List.mem_append_right _ (List.mem_map_of_mem hj)))
    workers := hafter.workers
    threads := hafter.threads
    respawned := hafter.respawned
    answers := hafter.answers
    inFlight := fun w hw j hjob => h'.fate hafter (Pool.worker?_of_mem h.sound.nodup_ids hw) hjob
    answerable := fun hhere j hj => h'.answerable hshut' hhere hj
    nearer := fun s'' hstep hhere => h'.nearer hshut' hstep hhere
    owned := h'.owned
    gone := hgone
    returned := hreturned
    handles := h'.nodup_returned }

/-- **Shutting down is final.**  The step that begins it turns away the whole queue and returns
every handle.  From then on, whatever callers and threads do, nothing is accepted, handed out or
started; what was queued stays answered with the refusal; further shutdowns, that of the drop among
them, turn nobody away and take no handle; and a task under way comes to its own answer and no
other, which only the end of the pool itself can prevent, after it was dropped. -/
theorem shutdown_is_final {size capacity : Nat} (hsize : 1 ≤ size) (hcapacity : 1 ≤ capacity) :
    ∃ p, Pool.start size capacity = .ok p ∧ ∀ s, Steps (opening p) s →
      (s.crew.pool.isShuttingDown = false → ∀ s', Step s s' →
        s'.crew.pool.isShuttingDown = true → s.Closes s')
      ∧ (s.crew.pool.isShuttingDown = true → ∀ s', Steps s s' → s.Final s') := by
  obtain ⟨p, hp⟩ := Pool.exists_start hsize hcapacity
  refine ⟨p, hp, fun s hsteps => ?_⟩
  have h := (good_opening hp).steps hsteps
  exact ⟨fun hopen s' => h.closes hopen, fun hshut s' => h.final hshut⟩

/-- One task is under way and another waits when the pool shuts down, and again when it is dropped.
The worker breaks down in between, which is the answer to its task, and none takes its place. -/
theorem shutdown_is_final_crash :
    ∃ p s s' s'', Pool.start 1 2 = .ok p ∧ Steps (opening p) s
      ∧ s.Closes s' ∧ Steps s' s'' ∧ s'.Final s''
      ∧ s'.crew.turnedAway = [⟨1, { id := "b", path := ⟨"b"⟩, content := "" }⟩]
      ∧ s''.crew.pool.answers = [(0, .error (.workerFault 0 "a" "worker panicked: boom")),
        (1, .error .poolShuttingDown)]
      ∧ s''.crew.pool.workers = [] ∧ s''.returned = [(1, [0]), (0, [])] ∧ s''.isGone = true := by
  obtain ⟨p, hp, hfinal⟩ := shutdown_is_final (Nat.le_refl 1) (by decide : 1 ≤ 2)
  cases hp
  have hgiven := Relation.ReflTransGen.single (Step.work
    (s := opening { size := 1, capacity := 2, workers := [{ id := 0 }], nextWorker := 1 }) rfl
    (.submit { id := "a", path := ⟨"a"⟩, content := "" } rfl) rfl)
  have hqueued := hgiven.tail
    (.work rfl (.submit { id := "b", path := ⟨"b"⟩, content := "" } rfl) rfl)
  have htaken := hqueued.tail (.work rfl (.receive 0 rfl) rfl)
  have hshut := htaken.tail (.shutdown rfl)
  have hfrom : ∀ {s p}, Steps (opening p) s → Steps s s := fun _ => .refl
  have hjudged := (hfrom hshut).tail (.work rfl (.judge 0 (.crashed (some "boom")) rfl) rfl)
  have htold := hjudged.tail (.work rfl (.tell 0 rfl) rfl)
  have hgone := (htold.tail (.drop rfl)).tail (.vanish rfl)
  exact ⟨_, _, _, _, rfl, htaken, (hfinal _ htaken).1 rfl _ (.shutdown rfl) rfl, hgone,
    (hfinal _ hshut).2 rfl _ hgone, rfl, rfl, rfl, rfl, rfl⟩

/-- **A dropped pool answers nobody.**  Its last task is under way when the pool is shut down and
then dropped; its worker is not done before the pool is gone, so there is no answer any more. -/
theorem not_answerable_after_drop :
    ¬ ∀ size capacity p s w j s', 1 ≤ size → 1 ≤ capacity → Pool.start size capacity = .ok p →
      Steps (opening p) s → s.crew.pool.isShuttingDown = true → w ∈ s.crew.pool.workers →
      w.job = some j → Steps s s' → s'.Answerable j := by
  intro hall
  have hgiven := Relation.ReflTransGen.single (Step.work
    (s := opening { size := 1, capacity := 1, workers := [{ id := 0 }], nextWorker := 1 }) rfl
    (.submit { id := "t", path := ⟨"f"⟩, content := "gate:x" } rfl) rfl)
  have htaken := hgiven.tail (.work rfl (.receive 0 rfl) rfl)
  have hshut := htaken.tail (.shutdown rfl)
  have hdropped := hshut.tail (.drop rfl)
  have hgone := hdropped.tail (.vanish rfl)
  obtain ⟨s'', hsteps, hanswered⟩ := hall 1 1 _ _ _ _ _ (Nat.le_refl 1) (Nat.le_refl 1) rfl
    hgone rfl List.mem_cons_self rfl .refl
  have hgood := (good_opening (show Pool.start 1 1 = .ok _ from rfl)).steps hgone
  exact hanswered (by rw [((hgood.later_steps rfl hsteps).gone rfl).2]; rfl)

end Custody
end Crew
end Rebuild
