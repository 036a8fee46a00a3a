import Rebuild.Proofs.Pool.Crew
import Rebuild.Proofs.Pool.Overflow

/-!
# Tasks are handed out in order

The oldest task of a pool is the next to be handed to a worker, and no task waits while a worker has
nothing to do.  The first rests on the second: a task that is given to a free worker at once
overtakes nobody, because nobody waits.

* **What a step hands out.**  `Pool.handed` reads it off the workers before and after the step, and
  `Pool.HandsOn` says what it is where a task comes to its end: the head of the queue.
* **Journals.**  A `Crew.Journal` notes what was handed out and how many workers broke down before
  the pool began to shut down.  `Journal.Good` is kept by every step.
* **Endpoint.**  `tasks_handed_in_order`.
-/

namespace Rebuild

namespace Pool

variable {p p' : Pool} {w : Worker} {j : Job} {kept : List Job}

/-! ## What a step hands out -/

/-- The tasks that the workers have. -/
def jobs (p : Pool) : List Job := p.workers.filterMap Worker.job

/-- The tasks that workers have after a step and did not have before it. -/
def handed (p p' : Pool) : List Job := p'.jobs.filter (· ∉ p.jobs)

/-- Workers keep their tasks, or are done with them, and one of them may get another. -/
lemma handed_eq (next : Option Job) (hkept : kept ⊆ p.jobs)
    (hjobs : p'.jobs.Perm (next.toList ++ kept)) (hnew : ∀ j ∈ next, j ∉ p.jobs) :
    handed p p' = next.toList := by
  have hnext : next.toList.filter (· ∉ p.jobs) = next.toList :=
    List.filter_eq_self.2 fun j hj => by simpa using hnew j (Option.mem_toList.1 hj)
  have hold : kept.filter (· ∉ p.jobs) = [] :=
    List.filter_eq_nil_iff.2 fun j hj => by simpa using hkept hj
  have hperm := hjobs.filter (· ∉ p.jobs)
  rw [List.filter_append, hnext, hold, List.append_nil] at hperm
  cases next with
  | none => exact List.perm_nil.1 hperm
  | some j => exact List.perm_singleton.1 hperm

lemma handed_eq_nil (h : p'.jobs ⊆ p.jobs) : handed p p' = [] :=
  handed_eq none h (.refl _) (by simp)

/-- A task comes to its end, and the next one of the queue goes on in its place. -/
structure HandsOn (p p' : Pool) : Prop where
  jobs : ∃ kept, kept ⊆ p.jobs ∧ p'.jobs.Perm (p.next?.toList ++ kept)
  queue : p.queue = p.next?.toList ++ p'.queue

lemma jobs_takeNext (hids : (p.workers.map Worker.id).Nodup) (hw : w ∈ p.workers)
    (hidle : w.job = none) : (p.takeNext w.id).jobs.Perm (p.next?.toList ++ p.jobs)
      ∧ p.queue = p.next?.toList ++ (p.takeNext w.id).queue := by
  rw [takeNext, next?]
  split_ifs
  · exact ⟨.refl _, rfl⟩
  · cases hqueue : p.queue with
    | nil => exact ⟨.refl _, hqueue.symm⟩
    | cons job rest =>
        have hold := jobs_perm hids hw
        have hnew := jobs_updateWorker_perm (p := { p with queue := rest }) (f := (·.take job))
          (fun _ => rfl) hids hw
        rw [hidle] at hold
        exact ⟨hnew.trans (hold.symm.cons job), rfl⟩

/-- Of the workers beside one that is done, each keeps its task. -/
lemma others_subset_jobs (p : Pool) (id : Nat) :
    (p.workers.filter fun v => !(v.id == id)).filterMap Worker.job ⊆ p.jobs :=
  (List.filter_sublist.filterMap Worker.job).subset

lemma SoundBut.handsOn_report (h : p.Sound) (hw : p.worker? w.id = some w) (hjob : w.job = some j)
    (outcome : TaskReport) : p.HandsOn (p.report w.id outcome) := by
  obtain ⟨hmem, -⟩ := mem_of_worker? hw
  rw [Pool.report]
  simp only [hw, hjob]
  let idle : Pool := { (p.answer j.ticket (.ok outcome)).updateWorker w.id Worker.rest with
    completed := p.completed + 1 }
  have hids : (idle.workers.map Worker.id).Nodup :=
    (h.toStaffed.updateWorker w.id (f := Worker.rest) (fun _ => rfl) fun _ => rfl).nodup_ids
  have hrest : w.rest ∈ idle.workers := List.mem_map.2 ⟨w, hmem, if_pos rfl⟩
  have hjobs : idle.jobs.Perm
      ((p.workers.filter fun v => !(v.id == w.id)).filterMap Worker.job) :=
    jobs_updateWorker_perm (f := Worker.rest) (fun _ => rfl) h.nodup_ids hmem
  obtain ⟨hperm, hqueue⟩ := jobs_takeNext (w := w.rest) hids hrest rfl
  exact ⟨⟨_, others_subset_jobs p w.id, hperm.trans (hjobs.append_left _)⟩, hqueue⟩

lemma SoundBut.handsOn_crash (h : p.Sound) (hw : p.worker? w.id = some w)
    (message : Option String) : p.HandsOn (p.crash w.id message) := by
  rw [crash_eq hw]
  split_ifs with hshut
  · have hnext : p.next? = none := if_pos hshut
    refine ⟨⟨_, others_subset_jobs p w.id, ?_⟩, ?_⟩
    · rw [hnext]
      exact .refl _
    · rw [hnext]
      rfl
  · have hids : ((p.without w message).withNewWorker.workers.map Worker.id).Nodup := by
      rw [withNewWorker, without, List.map_append]
      refine List.nodup_append.2 ⟨h.nodup_ids.sublist (List.filter_sublist.map Worker.id),
        List.nodup_singleton _, fun a ha b hb => ?_⟩
      obtain ⟨v, hv, rfl⟩ := List.mem_map.1 ha
      rw [List.mem_singleton.1 hb]
      exact Nat.ne_of_lt (h.id_lt v (List.mem_filter.1 hv).1)
    have hjobs : (p.without w message).withNewWorker.jobs
        = (p.workers.filter fun v => !(v.id == w.id)).filterMap Worker.job := by
      rw [jobs, withNewWorker, without, List.filterMap_append]
      exact List.append_nil _
    obtain ⟨hperm, hqueue⟩ := jobs_takeNext (w := { id := p.nextWorker }) hids
      (List.mem_append_right _ (List.mem_singleton_self _)) rfl
    rw [hjobs] at hperm
    exact ⟨⟨_, others_subset_jobs p w.id, hperm⟩, hqueue⟩

/-- **The end of a task** hands out the head of the queue. -/
lemma SoundBut.handsOn_conclude (h : p.Sound) {d : Judgement} (hw : p.worker? d.worker = some w)
    (hjob : w.job = some d.job) : p.HandsOn (p.conclude d.worker d.job.task.id d.verdict) := by
  obtain ⟨id, j, v⟩ := d
  obtain ⟨-, rfl⟩ := mem_of_worker? hw
  cases v with
  | compiled output dependencies => exact SoundBut.handsOn_report h hw hjob _
  | refused message => exact SoundBut.handsOn_report h hw hjob _
  | crashed message => exact SoundBut.handsOn_crash h hw message

lemma HandsOn.handed_eq (h : p.HandsOn p') (hsound : p.Sound) : handed p p' = p.next?.toList := by
  obtain ⟨kept, hkept, hjobs⟩ := h.jobs
  refine Pool.handed_eq _ hkept hjobs fun j hj hmem => ?_
  -- A task that waits is not with a worker: it is booked once.
  have hqueue : j ∈ p.queue := by
    rw [h.queue]
    exact List.mem_append_left _ (Option.mem_toList.2 hj)
  have hnodup := hsound.booked.nodup
  rw [pending, List.map_append] at hnodup
  exact List.disjoint_of_nodup_append hnodup (List.mem_map_of_mem hmem) (List.mem_map_of_mem hqueue)

/-- A task that is accepted is handed out at once, or waits. -/
lemma SoundBut.handed_submit (h : p.Sound) {task : Task} {ticket : Ticket}
    (hsubmit : p.submit task = .ok (p', ticket)) :
    (p.queue = [] ∧ p'.queue = [] ∧ handed p p' = [⟨ticket, task⟩])
      ∨ (p.queue.length < p.capacity ∧ p'.queue = p.queue ++ [⟨ticket, task⟩]
        ∧ handed p p' = []) := by
  have hroom : p.freeWorker? = none → p.queue.length < p.capacity := by
    intro hfree
    by_contra hfull
    rw [Pool.submit] at hsubmit
    simp only [hfree, if_neg hfull] at hsubmit
    split at hsubmit <;> cases hsubmit
  obtain ⟨rfl, ⟨w, hfree, rfl⟩ | ⟨hfree, rfl⟩⟩ := submit_cases hsubmit
  · left
    have hmem : w ∈ p.workers := List.mem_of_find?_eq_some hfree
    have hidle : w.job = none := by
      have hfound := List.find?_some hfree
      rw [Worker.isFree, Worker.isIdle, Bool.and_eq_true, Option.isNone_iff_eq_none] at hfound
      exact hfound.1
    have hqueue : p.queue = [] := by
      by_contra hne
      cases h.busy hne w hmem hidle
    have hjobs := jobs_updateWorker_perm (p := { p with nextTicket := p.nextTicket + 1 })
      (f := (·.take ⟨p.nextTicket, task⟩)) (fun _ => rfl) h.nodup_ids hmem
    refine ⟨hqueue, hqueue, Pool.handed_eq (some ⟨p.nextTicket, task⟩)
      (others_subset_jobs p w.id) hjobs ?_⟩
    rintro j hj hmem
    cases hj
    exact absurd (h.booked.lt _ (List.mem_append_left _ hmem)) (Nat.lt_irrefl _)
  · exact .inr ⟨hroom hfree, rfl, handed_eq_nil (List.Subset.refl _)⟩

/-! ## What a pool turns away -/

/-- A queue is full only where every worker is busy, so a task is turned away for this reason
exactly where both are the case. -/
lemma SoundBut.submit_eq_queueOverflow_iff (h : p.Sound) (hcapacity : 1 ≤ p.capacity)
    (hle : p.queue.length ≤ p.capacity) (task : Task) :
    p.submit task = .error (.queueOverflow p.capacity)
      ↔ (∀ w ∈ p.workers, w.job ≠ none) ∧ p.queue.length = p.capacity := by
  rw [Pool.submit]
  by_cases hshut : p.isShuttingDown = true
  · have hqueue : p.queue.length = 0 := by rw [h.closed hshut, List.length_nil]
    rw [if_pos hshut]
    simp only [Except.error.injEq, reduceCtorEq, false_iff, not_and]
    omega
  · have hopen := (h.isOpen (Bool.eq_false_iff.2 hshut)).2
    have hbusy : p.freeWorker? = none ↔ ∀ w ∈ p.workers, w.job ≠ none := by
      rw [freeWorker?, List.find?_eq_none]
      refine forall₂_congr fun w hw => ?_
      simp [Worker.isFree, Worker.isIdle, hopen w hw]
    rw [if_neg hshut, ← hbusy]
    cases p.freeWorker? with
    | some w => simp
    | none =>
        simp only [true_and]
        split_ifs with hroom
        · simp only [false_iff]
          omega
        · simp only [true_iff]
          omega

/-- There is no other reason to turn a task away but the end of the pool. -/
lemma submit_error {task : Task} {e : BuildError} (h : p.submit task = .error e) :
    e = .queueOverflow p.capacity ∨ e = .poolShuttingDown ∧ p.isShuttingDown = true := by
  rw [submit] at h
  split at h
  case isTrue hshut =>
    cases h
    exact .inr ⟨rfl, hshut⟩
  case isFalse =>
    split at h
    case h_1 => cases h
    case h_2 =>
      split_ifs at h
      cases h
      exact .inl rfl

/-! ## What the end of a task leaves alone -/

lemma report_eq (hw : p.worker? w.id = some w) (outcome : TaskReport) :
    (p.report w.id outcome).capacity = p.capacity
      ∧ (p.report w.id outcome).isShuttingDown = p.isShuttingDown
      ∧ (p.report w.id outcome).respawned = p.respawned := by
  rw [report]
  simp only [hw]
  obtain ⟨workers, queue, heq⟩ := exists_takeNext_eq _ w.id
  rw [heq]
  cases w.job <;> exact ⟨rfl, rfl, rfl⟩

/-- A worker that broke down is replaced, unless the pool shuts down. -/
lemma crash_respawned (hw : p.worker? w.id = some w) (message : Option String) :
    (p.crash w.id message).capacity = p.capacity
      ∧ (p.crash w.id message).isShuttingDown = p.isShuttingDown
      ∧ (p.crash w.id message).respawned = p.respawned + if !p.isShuttingDown then 1 else 0 := by
  rw [crash_eq hw]
  cases hshut : p.isShuttingDown with
  | true => exact ⟨rfl, hshut, rfl⟩
  | false =>
      obtain ⟨workers, queue, heq⟩ :=
        exists_takeNext_eq (p.without w message).withNewWorker p.nextWorker
      rw [if_neg Bool.false_ne_true, heq]
      exact ⟨rfl, hshut, rfl⟩

lemma conclude_respawned {d : Judgement} (hw : p.worker? d.worker = some w) :
    (p.conclude d.worker d.job.task.id d.verdict).capacity = p.capacity
      ∧ (p.conclude d.worker d.job.task.id d.verdict).isShuttingDown = p.isShuttingDown
      ∧ (p.conclude d.worker d.job.task.id d.verdict).respawned
        = p.respawned + if d.isCrash && !p.isShuttingDown then 1 else 0 := by
  obtain ⟨id, j, v⟩ := d
  obtain ⟨-, rfl⟩ := mem_of_worker? hw
  cases v with
  | compiled output dependencies =>
      exact report_eq hw (.ofCompiled j.task.id output dependencies)
  | refused message => exact report_eq hw (.ofRefused j.task.id message)
  | crashed message => exact crash_respawned hw message

end Pool

namespace Crew

variable {c c' : Crew} {size capacity : Nat}

/-- How many workers broke down in a step, while the pool took tasks. -/
def breakdowns (c c' : Crew) : Nat :=
  if c.pool.isShuttingDown then 0
  else c'.told.countP Judgement.isCrash - c.told.countP Judgement.isCrash

/-- A crew, with what became of its workers and its queue. -/
structure Journal where
  crew : Crew
  /-- The tasks that workers were given, in their order. -/
  handed : List Job := []
  /-- How many workers broke down before the pool began to shut down. -/
  breakdowns : Nat := 0

namespace Journal

/-- The journal when its crew has gone on. -/
def next (j : Journal) (c' : Crew) : Journal where
  crew := c'
  handed := j.handed ++ Pool.handed j.crew.pool c'.pool
  breakdowns := j.breakdowns + Crew.breakdowns j.crew c'

/-- Each step of the crew is noted. -/
inductive Step : Journal → Journal → Prop where
  | note {j : Journal} {c' : Crew} (h : Crew.Step j.crew c') : Step j (j.next c')

/-- Any number of steps. -/
abbrev Steps : Journal → Journal → Prop := Relation.ReflTransGen Step

/-- What holds at any point. -/
structure Good (size capacity : Nat) (j : Journal) : Prop where
  crew : j.crew.Good
  capacity_eq : j.crew.pool.capacity = capacity
  workers : j.crew.pool.isShuttingDown = false → j.crew.pool.workers.length = size
  queue_le : j.crew.pool.queue.length ≤ capacity
  order : j.crew.accepted = j.handed ++ (j.crew.turnedAway ++ j.crew.pool.queue)
  turnedAway : j.crew.pool.isShuttingDown = false → j.crew.turnedAway = []
  respawned : j.crew.pool.respawned = j.breakdowns

variable {j : Journal}

/-! ## One step -/

/-- Workers break down where a verdict is told. -/
lemma next_breakdowns (j : Journal) {c' : Crew} (h : c'.told = j.crew.told) :
    (j.next c').breakdowns = j.breakdowns := by
  rw [next, Crew.breakdowns, h, Nat.sub_self, ite_self]
  rfl

/-- A step of threads among themselves. -/
lemma Good.apart (h : j.Good size capacity) (threads : Nat → Option WorkerThread)
    (said : List Judgement) (hstep : Crew.Step j.crew { j.crew with threads, said }) :
    (j.next { j.crew with threads, said }).Good size capacity where
  crew := h.crew.step hstep
  capacity_eq := h.capacity_eq
  workers := h.workers
  queue_le := h.queue_le
  order := by
    rw [next, Pool.handed_eq_nil (List.Subset.refl _), List.append_nil]
    exact h.order
  turnedAway := h.turnedAway
  respawned := h.respawned.trans (j.next_breakdowns rfl).symm

lemma Good.submit (h : j.Good size capacity) {task : Task} {p' : Pool} {ticket : Ticket}
    (hsubmit : j.crew.pool.submit task = .ok (p', ticket)) :
    (j.next { j.crew with
      pool := p'
      threads := sendTo j.crew.threads j.crew.pool.freeWorker? ⟨ticket, task⟩
      accepted := j.crew.accepted ++ [⟨ticket, task⟩] }).Good size capacity := by
  have hsound := h.crew.sound
  have halike := Pool.alike_submit hsubmit
  have hopen : j.crew.pool.isShuttingDown = false := by
    by_contra hshut
    rw [Pool.submit, if_pos (by simpa using hshut)] at hsubmit
    cases hsubmit
  have hturned := h.turnedAway hopen
  have hrespawned : p'.respawned = j.crew.pool.respawned := by
    obtain ⟨-, ⟨w, -, rfl⟩ | ⟨-, rfl⟩⟩ := Pool.submit_cases hsubmit <;> rfl
  have hqueue : p'.queue.length ≤ capacity ∧ j.crew.accepted ++ [⟨ticket, task⟩]
      = j.handed ++ Pool.handed j.crew.pool p' ++ p'.queue := by
    have horder := h.order
    rw [hturned, List.nil_append] at horder
    -- A task that is given to a free worker overtakes nobody, since the queue is empty.
    obtain ⟨hbefore, hafter, hhanded⟩ | ⟨hroom, hafter, hhanded⟩ :=
      Pool.SoundBut.handed_submit hsound hsubmit
    · rw [hhanded, hafter, horder, hbefore, List.append_nil, List.append_nil]
      exact ⟨Nat.zero_le _, rfl⟩
    · rw [hhanded, hafter, horder, List.append_nil, List.append_assoc, List.length_append]
      exact ⟨h.capacity_eq ▸ hroom, rfl⟩
  exact {
    crew := h.crew.submit hsubmit
    capacity_eq := halike.capacity.trans h.capacity_eq
    workers := fun hopen' => halike.workers.trans (h.workers hopen)
    queue_le := hqueue.1
    order := by
      show j.crew.accepted ++ _ = _ ++ (j.crew.turnedAway ++ _)
      rw [hturned]
      exact hqueue.2
    turnedAway := fun _ => hturned
    respawned := hrespawned.trans (h.respawned.trans (j.next_breakdowns rfl).symm) }

lemma Good.tell (h : j.Good size capacity) {id : Nat} {i : Job} {v : Verdict} {channel : List Job}
    (ht : j.crew.threads id = some ⟨channel, .telling i v⟩) :
    (j.next { j.crew with
      pool := j.crew.pool.conclude id i.task.id v
      threads := j.crew.threadsAfter ⟨id, i, v⟩ channel
      told := j.crew.told ++ [⟨id, i, v⟩] }).Good size capacity := by
  have hsound := h.crew.sound
  obtain ⟨w, hw, hserves⟩ := h.crew.manned.exists_worker ht
  obtain ⟨hjob, -⟩ := hserves.job_eq (j := i) rfl
  obtain ⟨hmem, rfl⟩ := Pool.mem_of_worker? hw
  have hhands := Pool.SoundBut.handsOn_conclude hsound (d := ⟨w.id, i, v⟩) hw hjob
  obtain ⟨hcapacity, hshut, hrespawned⟩ := Pool.conclude_respawned (d := ⟨w.id, i, v⟩) hw
  exact {
    crew := h.crew.tell ht
    capacity_eq := hcapacity.trans h.capacity_eq
    workers := fun hopen => by
      have hopen' := hshut.symm.trans hopen
      exact (Pool.alike_conclude hsound hopen' hmem _ v).workers.trans (h.workers hopen')
    queue_le := by
      have hlength := congrArg List.length hhands.queue
      rw [List.length_append] at hlength
      exact Nat.le_trans (Nat.le_of_add_left_le (Nat.le_of_eq hlength.symm)) h.queue_le
    order := by
      have horder := h.order
      rw [hhands.queue] at horder
      show j.crew.accepted = j.handed ++ Pool.handed _ (j.crew.pool.conclude w.id i.task.id v)
        ++ (j.crew.turnedAway ++ (j.crew.pool.conclude w.id i.task.id v).queue)
      rw [hhands.handed_eq hsound, horder]
      -- Until the shutdown nobody was turned away, and after it nothing is handed out.
      cases hopen : j.crew.pool.isShuttingDown with
      | true =>
          have hnext : j.crew.pool.next? = none := if_pos hopen
          rw [hnext, Option.toList_none, List.nil_append, List.append_nil]
      | false => rw [h.turnedAway hopen, List.nil_append, List.nil_append, List.append_assoc]
    turnedAway := fun hopen => h.turnedAway (hshut.symm.trans hopen)
    respawned := by
      show (j.crew.pool.conclude w.id i.task.id v).respawned = _ + Crew.breakdowns _ _
      rw [hrespawned, h.respawned, Crew.breakdowns, List.countP_append, List.countP_singleton,
        Nat.add_sub_cancel_left]
      cases j.crew.pool.isShuttingDown <;> cases Judgement.isCrash ⟨w.id, i, v⟩ <;> rfl }

lemma Good.shutdown (h : j.Good size capacity) :
    (j.next { j.crew with
      pool := j.crew.pool.beginShutdown
      turnedAway := if j.crew.pool.isShuttingDown then j.crew.turnedAway
        else j.crew.turnedAway ++ j.crew.pool.queue }).Good size capacity where
  crew := h.crew.step .shutdown
  capacity_eq := h.capacity_eq
  workers hopen := by cases hopen
  queue_le := Nat.zero_le _
  order := by
    have hjobs : j.crew.pool.beginShutdown.jobs ⊆ j.crew.pool.jobs := by
      rw [Pool.jobs, Pool.jobs_beginShutdown]
      exact List.Subset.refl _
    have hqueue := h.crew.sound.closed
    show j.crew.accepted = j.handed ++ Pool.handed _ _
      ++ ((if j.crew.pool.isShuttingDown then _ else _) ++ [])
    rw [Pool.handed_eq_nil hjobs, List.append_nil, List.append_nil, h.order]
    split_ifs with hshut
    · rw [hqueue hshut, List.append_nil]
    · rfl
  turnedAway hopen := by cases hopen
  respawned := h.respawned.trans (j.next_breakdowns rfl).symm

lemma Good.leave (h : j.Good size capacity) {id : Nat} {channel : List Job}
    (ht : j.crew.threads id = some ⟨channel, .closed⟩) :
    (j.next { j.crew with
      pool := j.crew.pool.crash id none
      threads := j.crew.threadsWithout id }).Good size capacity := by
  obtain ⟨w, hw, hidle, hshut⟩ := h.crew.of_closed ht
  obtain ⟨-, rfl⟩ := Pool.mem_of_worker? hw
  have hgood := h.crew.leave ht
  have hjobs : (j.crew.pool.crash w.id none).jobs ⊆ j.crew.pool.jobs := by
    rw [Pool.crash_idle hshut hw hidle]
    exact Pool.others_subset_jobs _ w.id
  have hhanded := Pool.handed_eq_nil hjobs
  rw [Pool.crash_idle hshut hw hidle] at hgood hhanded ⊢
  exact {
    crew := hgood
    capacity_eq := h.capacity_eq
    workers := fun hopen => absurd (hshut.symm.trans hopen) (by simp)
    queue_le := h.queue_le
    order := by
      rw [next, hhanded, List.append_nil]
      exact h.order
    turnedAway := h.turnedAway
    respawned := h.respawned.trans (j.next_breakdowns rfl).symm }

/-- **Every step keeps what holds of journals.** -/
lemma Good.step (h : j.Good size capacity) {j' : Journal} (hstep : Step j j') :
    j'.Good size capacity := by
  obtain ⟨hstep⟩ := hstep
  obtain ⟨crew, handed, count⟩ := j
  have hcrew := hstep
  cases hstep with
  | submit task hsubmit => exact h.submit hsubmit
  | receive id ht => exact h.apart _ _ hcrew
  | judge id v ht => exact h.apart _ _ hcrew
  | tell id ht => exact h.tell ht
  | shutdown => exact h.shutdown
  | hangUp id hclosed ht => exact h.apart _ _ hcrew
  | leave id ht => exact h.leave ht

lemma Good.steps (h : j.Good size capacity) {j' : Journal} (hsteps : Steps j j') :
    j'.Good size capacity := by
  induction hsteps with
  | refl => exact h
  | tail _ hstep ih => exact ih.step hstep

/-! ## Pools from their start on -/

lemma good_opening {p : Pool} (h : Pool.start size capacity = .ok p) :
    Good size capacity { crew := opening p } := by
  have hcrew := Crew.good_opening h
  obtain rfl := Pool.eq_of_start h
  exact {
    crew := hcrew
    capacity_eq := rfl
    workers := fun _ => (List.length_map _).trans List.length_range
    queue_le := Nat.zero_le _
    order := rfl
    turnedAway := fun _ => rfl
    respawned := rfl }

/-- Queue and workers go hand in hand. -/
structure InOrder (size capacity : Nat) (j : Journal) : Prop where
  queue_le : j.crew.pool.queue.length ≤ capacity
  workers : j.crew.pool.isShuttingDown = false → j.crew.pool.workers.length = size
  /-- No task waits while a worker has nothing to do. -/
  idle : ∀ w ∈ j.crew.pool.workers, w.job = none → j.crew.pool.queue = []
  /-- The accepted tasks are handed out in their order: those that were not yet are the later ones,
  and wait, or were turned away when the pool began to shut down. -/
  order : j.crew.accepted = j.handed ++ (j.crew.turnedAway ++ j.crew.pool.queue)
  /-- Nobody is turned away before. -/
  turnedAway : j.crew.pool.isShuttingDown = false → j.crew.turnedAway = []
  /-- What a worker was handed has reached its thread. -/
  held : ∀ w ∈ j.crew.pool.workers, ∃ t, j.crew.threads w.id = some t ∧ t.jobs = w.job.toList
  /-- The queue overflows exactly where everybody is busy and every place is taken. -/
  overflow : ∀ task, j.crew.pool.submit task = .error (.queueOverflow capacity)
    ↔ (∀ w ∈ j.crew.pool.workers, w.job ≠ none) ∧ j.crew.pool.queue.length = capacity
  /-- There is no other refusal but that of a pool that shuts down. -/
  refused : ∀ task e, j.crew.pool.submit task = .error e →
    e = .queueOverflow capacity ∨ e = .poolShuttingDown ∧ j.crew.pool.isShuttingDown = true
  respawned : j.crew.pool.respawned = j.breakdowns

lemma Good.inOrder (h : j.Good size capacity) (hcapacity : 1 ≤ capacity) :
    j.InOrder size capacity where
  queue_le := h.queue_le
  workers := h.workers
  idle w hw hidle := by
    by_contra hne
    cases h.crew.sound.busy hne w hw hidle
  order := h.order
  turnedAway := h.turnedAway
  held := h.crew.accounted.held
  overflow task := by
    obtain rfl := h.capacity_eq
    exact Pool.SoundBut.submit_eq_queueOverflow_iff h.crew.sound hcapacity h.queue_le task
  refused task e he := h.capacity_eq ▸ Pool.submit_error he
  respawned := h.respawned

/-- **Tasks are handed out in order.**  However submissions, ends of tasks, breakdowns and shutdowns
follow on each other, the queue keeps within its capacity and the pool has all its workers until it
shuts down; no task waits while a worker is idle, and tasks are handed out in the order in which
they were accepted.  A task is turned away for want of room exactly where there is none, which
leaves the pool as it was; and a worker is replaced for each one that broke down before the
shutdown. -/
theorem tasks_handed_in_order {size capacity : Nat} (hsize : 1 ≤ size)
    (hcapacity : 1 ≤ capacity) : ∃ p, Pool.start size capacity = .ok p
      ∧ ∀ j, Steps { crew := opening p } j → j.InOrder size capacity := by
  obtain ⟨p, hp⟩ := Pool.exists_start hsize hcapacity
  exact ⟨p, hp, fun j hsteps => ((good_opening hp).steps hsteps).inOrder hcapacity⟩

/-- While one task is under way and another waits, a third is turned away.  The worker breaks down,
and the one in its place goes on with the task that waits; the next waits when the pool shuts down.
-/
theorem tasks_handed_in_order_crash :
    ∃ p j j', Pool.start 1 1 = .ok p ∧ Steps { crew := opening p } j
      ∧ Steps { crew := opening p } j' ∧ j.InOrder 1 1 ∧ j'.InOrder 1 1
      ∧ j.crew.pool.submit { id := "c", path := ⟨"c"⟩, content := "" } = .error (.queueOverflow 1)
      ∧ j'.handed = [⟨0, { id := "a", path := ⟨"a"⟩, content := "" }⟩,
        ⟨1, { id := "b", path := ⟨"b"⟩, content := "" }⟩]
      ∧ j'.crew.turnedAway = [⟨2, { id := "c", path := ⟨"c"⟩, content := "" }⟩]
      ∧ j'.crew.pool.respawned = 1 := by
  obtain ⟨p, hp, hinOrder⟩ := tasks_handed_in_order (Nat.le_refl 1) (Nat.le_refl 1)
  cases hp
  have hgiven := Relation.ReflTransGen.single (Step.note (j := {
      crew := opening { size := 1, capacity := 1, workers := [{ id := 0 }], nextWorker := 1 } })
    (.submit { id := "a", path := ⟨"a"⟩, content := "" } rfl))
  have hqueued := hgiven.tail (.note (.submit { id := "b", path := ⟨"b"⟩, content := "" } rfl))
  have htaken := hqueued.tail (.note (.receive 0 rfl))
  have hcrashed := (htaken.tail (.note (.judge 0 (.crashed (some "boom")) rfl))).tail
    (.note (.tell 0 rfl))
  have hagain := hcrashed.tail (.note (.submit { id := "c", path := ⟨"c"⟩, content := "" } rfl))
  have hshut := hagain.tail (.note .shutdown)
  exact ⟨_, _, _, rfl, hqueued, hshut, hinOrder _ hqueued, hinOrder _ hshut, rfl, rfl, rfl, rfl⟩

end Journal
end Crew
end Rebuild
