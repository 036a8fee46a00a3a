import Mathlib.Data.List.Nodup
import Mathlib.Tactic.Common
import Rebuild.Pool.Basic

/-!
# What holds of every pool

`Pool.Sound` is kept by everything that can happen to a pool, and says two things.

* **Nothing is lost.**  A ticket that was given out and not answered is pending: its task is with a
  worker or in the queue, once (`Booked`).
* **Nobody waits in vain.**  While a task is in the queue, all workers are busy, and there is one.

Between the moment when a worker has nothing left to do and the moment when it takes its next task,
the second part holds but for this worker (`SoundBut`); `SoundBut.takeNext` closes the gap.

What follows is `Sound.pending_eq_nil`: when no worker can come to a verdict although every task has
one, no task is pending.
-/

namespace Rebuild

/-! ## Tickets -/

/-- The pending tasks have tickets of their own, not answered yet; `next` was not given out. -/
structure Booked (jobs : List Job) (answers : List (Ticket × Outcome)) (next : Ticket) : Prop where
  nodup : (jobs.map Job.ticket).Nodup
  lt : ∀ j ∈ jobs, j.ticket < next
  answered_lt : ∀ a ∈ answers, a.1 < next
  unanswered : ∀ j ∈ jobs, answers.lookup j.ticket = none

namespace Booked

variable {jobs jobs' : List Job} {answers : List (Ticket × Outcome)} {next : Ticket}

lemma perm (h : Booked jobs answers next) (hperm : jobs.Perm jobs') :
    Booked jobs' answers next where
  nodup := (hperm.map Job.ticket).nodup_iff.1 h.nodup
  lt j hj := h.lt j (hperm.mem_iff.2 hj)
  answered_lt := h.answered_lt
  unanswered j hj := h.unanswered j (hperm.mem_iff.2 hj)

/-- The next ticket is free. -/
lemma lookup_next (h : Booked jobs answers next) : answers.lookup next = none := by
  rw [List.lookup_eq_none_iff]
  intro a ha
  exact bne_iff_ne.2 (Nat.ne_of_gt (h.answered_lt a ha))

lemma accept (h : Booked jobs answers next) (task : Task) :
    Booked (⟨next, task⟩ :: jobs) answers (next + 1) where
  nodup := by
    refine List.nodup_cons.2 ⟨?_, h.nodup⟩
    intro hmem
    obtain ⟨j, hj, heq⟩ := List.mem_map.1 hmem
    exact absurd heq (Nat.ne_of_lt (h.lt j hj))
  lt j hj := by
    rcases List.mem_cons.1 hj with rfl | hj
    · exact Nat.lt_succ_self next
    · exact Nat.lt_succ_of_lt (h.lt j hj)
  answered_lt a ha := Nat.lt_succ_of_lt (h.answered_lt a ha)
  unanswered j hj := by
    rcases List.mem_cons.1 hj with rfl | hj
    · exact h.lookup_next
    · exact h.unanswered j hj

lemma answer {j : Job} (h : Booked (j :: jobs) answers next) (outcome : Outcome) :
    Booked jobs ((j.ticket, outcome) :: answers) next where
  nodup := (List.nodup_cons.1 h.nodup).2
  lt i hi := h.lt i (List.mem_cons_of_mem _ hi)
  answered_lt a ha := by
    rcases List.mem_cons.1 ha with rfl | ha
    · exact h.lt j List.mem_cons_self
    · exact h.answered_lt a ha
  unanswered i hi := by
    have hne : i.ticket ≠ j.ticket := by
      intro heq
      exact (List.nodup_cons.1 h.nodup).1 (List.mem_map.2 ⟨i, hi, heq⟩)
    rw [List.lookup_cons, beq_false_of_ne hne]
    exact h.unanswered i (List.mem_cons_of_mem _ hi)

end Booked

/-- The worker with nothing to do. -/
def Worker.rest (w : Worker) : Worker := { w with job := none }

namespace Pool

/-! ## The invariant -/

/-- The tasks that are accepted and not answered. -/
def pending (p : Pool) : List Job := p.workers.filterMap Worker.job ++ p.queue

/-- Workers are told apart, and all of them are open until the pool shuts down. -/
structure Staffed (p : Pool) : Prop where
  nodup_ids : (p.workers.map Worker.id).Nodup
  id_lt : ∀ w ∈ p.workers, w.id < p.nextWorker
  isOpen : p.isShuttingDown = false → p.workers ≠ [] ∧ ∀ w ∈ p.workers, w.isOpen = true

/-- A pool in which at most the worker `spare` is idle while a task is in the queue. -/
structure SoundBut (p : Pool) (spare : Option Nat) : Prop extends Staffed p where
  booked : Booked p.pending p.answers p.nextTicket
  closed : p.isShuttingDown = true → p.queue = []
  busy : p.queue ≠ [] → ∀ w ∈ p.workers, w.job = none → spare = some w.id

/-- A pool in which no worker is idle while a task is in the queue. -/
abbrev Sound (p : Pool) : Prop := p.SoundBut none

/-- The number of pending tasks is the load. -/
lemma length_pending (p : Pool) : p.pending.length = p.load := by
  rw [pending, load]
  rw [List.length_append, List.length_filterMap_eq_countP, Nat.add_comm]
  congr 2
  funext w
  rw [Worker.isIdle]
  cases w.job <;> rfl

/-! ## One worker among the others -/

/-- The place of a worker among those of other numbers. -/
lemma exists_split {ws : List Worker} {w : Worker} (hids : (ws.map Worker.id).Nodup) (hw : w ∈ ws) :
    ∃ before after, ws = before ++ w :: after ∧ ∀ v ∈ before ++ after, v.id ≠ w.id := by
  obtain ⟨before, after, rfl⟩ := List.append_of_mem hw
  refine ⟨before, after, rfl, fun v hv heq => ?_⟩
  rw [List.map_append, List.map_cons, List.nodup_middle, ← List.map_append] at hids
  exact (List.nodup_cons.1 hids).1 (List.mem_map.2 ⟨v, hv, heq⟩)

lemma mem_updateWorker {p : Pool} {id : Nat} {f : Worker → Worker} {v : Worker}
    (h : v ∈ (p.updateWorker id f).workers) :
    ∃ u ∈ p.workers, (u.id = id ∧ v = f u) ∨ (u.id ≠ id ∧ v = u) := by
  obtain ⟨u, hu, rfl⟩ := List.mem_map.1 h
  refine ⟨u, hu, ?_⟩
  by_cases hid : u.id = id
  · exact Or.inl ⟨hid, if_pos hid⟩
  · exact Or.inr ⟨hid, if_neg hid⟩

lemma ids_updateWorker {p : Pool} {id : Nat} {f : Worker → Worker} (hf : ∀ v, (f v).id = v.id) :
    (p.updateWorker id f).workers.map Worker.id = p.workers.map Worker.id := by
  rw [updateWorker]
  rw [List.map_map]
  refine List.map_congr_left fun v _ => ?_
  show (if v.id = id then f v else v).id = v.id
  split_ifs <;> simp [hf]

/-- The jobs of all workers, that of one of them first. -/
lemma jobs_perm {ws : List Worker} {w : Worker} (hids : (ws.map Worker.id).Nodup) (hw : w ∈ ws) :
    (ws.filterMap Worker.job).Perm
      (w.job.toList ++ (ws.filter fun v => !(v.id == w.id)).filterMap Worker.job) := by
  obtain ⟨before, after, rfl, hne⟩ := exists_split hids hw
  have hkept : ∀ v ∈ before ++ after, (!(v.id == w.id)) = true := by
    intro v hv
    simpa using hne v hv
  rw [List.filter_append, List.filter_cons_of_neg (by simp), ← List.filter_append,
    List.filter_eq_self.2 hkept, List.filterMap_append, List.filterMap_append]
  cases hjob : w.job with
  | none => simp [hjob]
  | some j =>
      rw [List.filterMap_cons, hjob]
      exact List.perm_middle

/-- Changing a worker changes its own job only. -/
lemma jobs_updateWorker_perm {p : Pool} {w : Worker} {f : Worker → Worker}
    (hf : ∀ v, (f v).id = v.id) (hids : (p.workers.map Worker.id).Nodup) (hw : w ∈ p.workers) :
    ((p.updateWorker w.id f).workers.filterMap Worker.job).Perm
      ((f w).job.toList ++ (p.workers.filter fun v => !(v.id == w.id)).filterMap Worker.job) := by
  have hmem : f w ∈ (p.updateWorker w.id f).workers :=
    List.mem_map.2 ⟨w, hw, if_pos rfl⟩
  have hothers : (p.updateWorker w.id f).workers.filter (fun v => !(v.id == w.id))
      = p.workers.filter fun v => !(v.id == w.id) := by
    rw [updateWorker]
    rw [List.filter_map]
    have hsame : ∀ v : Worker,
        (!((if v.id = w.id then f v else v).id == w.id)) = !(v.id == w.id) := by
      intro v
      split_ifs <;> simp [hf]
    refine Eq.trans (List.map_congr_left (g := id) fun v hv => if_neg ?_) ?_
    · have hkept := (List.mem_filter.1 hv).2
      rw [Function.comp, hsame] at hkept
      simpa using hkept
    · rw [List.map_id]
      refine List.filter_congr fun v _ => hsame v
  have hids' : ((p.updateWorker w.id f).workers.map Worker.id).Nodup := by
    rwa [ids_updateWorker hf]
  have hperm := jobs_perm hids' hmem
  rwa [hf, hothers] at hperm

lemma mem_of_worker? {p : Pool} {id : Nat} {w : Worker} (h : p.worker? id = some w) :
    w ∈ p.workers ∧ w.id = id :=
  ⟨List.mem_of_find?_eq_some h, by simpa using List.find?_some h⟩

lemma eq_of_id {p : Pool} {v w : Worker} (hids : (p.workers.map Worker.id).Nodup)
    (hv : v ∈ p.workers) (hw : w ∈ p.workers) (h : v.id = w.id) : v = w :=
  List.inj_on_of_nodup_map hids hv hw h

lemma worker?_of_mem {p : Pool} {w : Worker} (hids : (p.workers.map Worker.id).Nodup)
    (hw : w ∈ p.workers) : p.worker? w.id = some w := by
  cases hfound : p.worker? w.id with
  | none =>
      have hnone := List.find?_eq_none.1 hfound w hw
      simp at hnone
  | some v =>
      obtain ⟨hv, hid⟩ := mem_of_worker? hfound
      rw [eq_of_id hids hv hw hid]

/-! ## The steps -/

variable {p : Pool} {spare : Option Nat}

lemma Staffed.updateWorker (h : p.Staffed) (id : Nat) {f : Worker → Worker}
    (hid : ∀ v, (f v).id = v.id) (hopen : ∀ v, (f v).isOpen = v.isOpen) :
    (p.updateWorker id f).Staffed where
  nodup_ids := (ids_updateWorker hid).symm ▸ h.nodup_ids
  id_lt v hv := by
    obtain ⟨u, hu, ⟨-, rfl⟩ | ⟨-, rfl⟩⟩ := mem_updateWorker hv
    · rw [hid]
      exact h.id_lt u hu
    · exact h.id_lt v hu
  isOpen hshut := by
    obtain ⟨hne, hall⟩ := h.isOpen hshut
    refine ⟨fun hnil => hne (List.map_eq_nil_iff.1 hnil), fun v hv => ?_⟩
    obtain ⟨u, hu, ⟨-, rfl⟩ | ⟨-, rfl⟩⟩ := mem_updateWorker hv
    · rw [hopen]
      exact hall u hu
    · exact hall v hu

/-- The spare worker takes the oldest task of the queue, and none is spare. -/
lemma SoundBut.takeNext {w : Worker} (h : p.SoundBut (some w.id)) (hw : w ∈ p.workers)
    (hidle : w.job = none) : (p.takeNext w.id).Sound ∧ (p.takeNext w.id).pending.Perm p.pending
      ∧ (p.takeNext w.id).answers = p.answers ∧ (p.takeNext w.id).nextTicket = p.nextTicket := by
  have hstays : p.queue = [] → p.Sound := fun hqueue =>
    { h with busy := fun hne => absurd hqueue hne }
  rw [Pool.takeNext]
  by_cases hshut : p.isShuttingDown = true
  · rw [if_pos hshut]
    exact ⟨hstays (h.closed hshut), List.Perm.refl _, rfl, rfl⟩
  rw [if_neg hshut]
  cases hqueue : p.queue with
  | nil => exact ⟨hstays hqueue, List.Perm.refl _, rfl, rfl⟩
  | cons job rest =>
      have hperm : (Pool.updateWorker { p with queue := rest } w.id (·.take job)).pending.Perm
          p.pending := by
        have hold := jobs_perm h.nodup_ids hw
        have hnew := jobs_updateWorker_perm (p := { p with queue := rest }) (f := (·.take job))
          (fun _ => rfl) h.nodup_ids hw
        rw [hidle] at hold
        refine (hnew.append_right rest).trans ?_
        rw [pending]
        rw [hqueue]
        exact List.perm_middle.symm.trans (hold.symm.append_right (job :: rest))
      have hbusy := h.busy (by simp [hqueue])
      refine ⟨⟨?_, h.booked.perm hperm.symm, fun hshut' => absurd hshut' hshut, ?_⟩, hperm, rfl,
        rfl⟩
      · have hrest : Staffed { p with queue := rest } := ⟨h.nodup_ids, h.id_lt, h.isOpen⟩
        exact hrest.updateWorker w.id (fun _ => rfl) (fun _ => rfl)
      · intro _ v hv hjob
        obtain ⟨u, hu, ⟨-, rfl⟩ | ⟨hne, rfl⟩⟩ := mem_updateWorker hv
        · cases hjob
        · exact absurd (Option.some.inj (hbusy v hu hjob)).symm hne

/-- A task with a ticket of its own is accepted, and nothing else changes. -/
lemma SoundBut.submit (h : p.Sound) {task : Task} {p' : Pool} {ticket : Ticket}
    (hsubmit : p.submit task = .ok (p', ticket)) :
    p'.Sound ∧ p'.pending.Perm (⟨ticket, task⟩ :: p.pending) ∧ p'.answers = p.answers
      ∧ ticket = p.nextTicket := by
  rw [Pool.submit] at hsubmit
  by_cases hshut : p.isShuttingDown = true
  · rw [if_pos hshut] at hsubmit
    cases hsubmit
  rw [if_neg hshut] at hsubmit
  have haccept := h.booked.accept task
  cases hfree : p.freeWorker? with
  | some w =>
      rw [hfree] at hsubmit
      cases hsubmit
      have hw : w ∈ p.workers := List.mem_of_find?_eq_some hfree
      have hidle : w.job = none := by
        have := List.find?_some hfree
        simp only [Worker.isFree, Worker.isIdle, Bool.and_eq_true,
          Option.isNone_iff_eq_none] at this
        exact this.1
      have hqueue : p.queue = [] := by
        by_contra hne
        cases h.busy hne w hw hidle
      have hperm : (Pool.updateWorker { p with nextTicket := p.nextTicket + 1 } w.id
          (·.take ⟨p.nextTicket, task⟩)).pending.Perm (⟨p.nextTicket, task⟩ :: p.pending) := by
        have hold := jobs_perm h.nodup_ids hw
        have hnew := jobs_updateWorker_perm (p := { p with nextTicket := p.nextTicket + 1 })
          (f := (·.take ⟨p.nextTicket, task⟩)) (fun _ => rfl) h.nodup_ids hw
        rw [hidle] at hold
        exact (hnew.append_right p.queue).trans ((hold.symm.append_right p.queue).cons _)
      refine ⟨⟨?_, haccept.perm hperm.symm, h.closed, fun hne => absurd hqueue hne⟩, hperm, rfl,
        rfl⟩
      have hnext : Staffed { p with nextTicket := p.nextTicket + 1 } :=
        ⟨h.nodup_ids, h.id_lt, h.isOpen⟩
      exact hnext.updateWorker w.id (fun _ => rfl) (fun _ => rfl)
  | none =>
      simp only [hfree] at hsubmit
      by_cases hroom : p.queue.length < p.capacity
      · rw [if_pos hroom] at hsubmit
        cases hsubmit
        have hperm : (p.workers.filterMap Worker.job ++
          (p.queue ++ [Job.mk p.nextTicket task])).Perm
            (Job.mk p.nextTicket task :: p.pending) := by
          rw [← List.append_assoc]
          exact List.perm_append_comm
        refine ⟨⟨⟨h.nodup_ids, h.id_lt, h.isOpen⟩, haccept.perm hperm.symm,
          fun hshut' => absurd hshut' hshut, ?_⟩, hperm, rfl, rfl⟩
        intro _ w hw hidle
        have hnot := List.find?_eq_none.1 hfree w hw
        have hopen := (h.isOpen (by simpa using hshut)).2 w hw
        simp [Worker.isFree, Worker.isIdle, hidle, hopen] at hnot
      · rw [if_neg hroom] at hsubmit
        cases hsubmit

/-- What a pool answers to a task on which its worker came to a verdict. -/
inductive Concludes (task : Task) : Verdict → Outcome → Prop where
  | compiled (output : String) (dependencies : List Path) :
      Concludes task (.compiled output dependencies) (.ok (.ofCompiled task.id output dependencies))
  | refused (message : String) :
      Concludes task (.refused message) (.ok (.ofRefused task.id message))
  | crashed (worker : Nat) (message : Option String) :
      Concludes task (.crashed message) (.error
        (.workerFault worker task.id (crashMessage message)))

/-- A worker that is done: its task is answered, and nothing else is lost. -/
lemma SoundBut.report (h : p.Sound) {w : Worker} {j : Job} (hw : w ∈ p.workers)
    (hjob : w.job = some j) (outcome : TaskReport) :
    (p.report w.id outcome).Sound ∧ p.pending.Perm (j :: (p.report w.id outcome).pending)
      ∧ (p.report w.id outcome).answers = (j.ticket, .ok outcome) :: p.answers := by
  rw [Pool.report]
  simp only [worker?_of_mem h.nodup_ids hw, hjob]
  set idle : Pool := { (p.answer j.ticket (.ok outcome)).updateWorker w.id Worker.rest with
    completed := p.completed + 1 } with hidle
  have hperm : p.pending.Perm (j :: idle.pending) := by
    have hold := jobs_perm h.nodup_ids hw
    have hnew := jobs_updateWorker_perm (f := Worker.rest) (fun _ => rfl) h.nodup_ids hw
    rw [hjob] at hold
    exact (hold.trans (hnew.symm.cons j)).append_right p.queue
  have hsound : idle.SoundBut (some w.id) := by
    refine ⟨?_, (h.booked.perm hperm).answer (.ok outcome), h.closed, ?_⟩
    · have hstaffed := h.toStaffed.updateWorker w.id (f := Worker.rest) (fun _ => rfl)
        (fun _ => rfl)
      exact ⟨hstaffed.nodup_ids, hstaffed.id_lt, hstaffed.isOpen⟩
    · intro hne v hv hfree
      obtain ⟨u, hu, ⟨hid, rfl⟩ | ⟨-, rfl⟩⟩ := mem_updateWorker hv
      · exact congrArg some hid.symm
      · cases h.busy hne v hu hfree
  have hmem : w.rest ∈ idle.workers := List.mem_map.2 ⟨w, hw, if_pos rfl⟩
  obtain ⟨hnext, hkept, hanswers, -⟩ := SoundBut.takeNext (w := w.rest) hsound hmem rfl
  exact ⟨hnext, hperm.trans (hkept.symm.cons j), hanswers⟩

/-- A worker that broke down: its task is answered, and a new worker goes on with the queue. -/
lemma SoundBut.crash (h : p.Sound) {w : Worker} {j : Job} (hw : w ∈ p.workers)
    (hjob : w.job = some j) (message : Option String) :
    (p.crash w.id message).Sound ∧ p.pending.Perm (j :: (p.crash w.id message).pending)
      ∧ (p.crash w.id message).answers
        = (j.ticket, .error (.workerFault w.id j.task.id (crashMessage message))) :: p.answers := by
  have hold := jobs_perm h.nodup_ids hw
  rw [hjob] at hold
  rw [Pool.crash]
  simp only [worker?_of_mem h.nodup_ids hw, hjob]
  set others := p.workers.filter fun v => !(v.id == w.id) with hothers
  have hids : (others.map Worker.id).Nodup :=
    h.nodup_ids.sublist (List.filter_sublist.map Worker.id)
  have hmem : ∀ v ∈ others, v ∈ p.workers := fun v hv => (List.mem_filter.1 hv).1
  have hperm : p.pending.Perm (j :: (others.filterMap Worker.job ++ p.queue)) :=
    hold.append_right p.queue
  have hbooked := (h.booked.perm hperm).answer
    (.error (.workerFault w.id j.task.id (crashMessage message)))
  by_cases hshut : p.isShuttingDown = true
  · rw [if_pos hshut]
    refine ⟨⟨⟨hids, fun v hv => h.id_lt v (hmem v hv), ?_⟩, hbooked, h.closed, ?_⟩, hperm, rfl⟩
    · intro hopen
      exact absurd (hshut.symm.trans hopen) (by simp)
    · exact fun hne => absurd (h.closed hshut) hne
  · rw [if_neg hshut]
    have hjobs : (others ++ [Worker.mk p.nextWorker none true]).filterMap Worker.job
        = others.filterMap Worker.job := by
      rw [List.filterMap_append]
      exact List.append_nil _
    have hlast : ∀ {v : Worker}, v ∈ others ++ [Worker.mk p.nextWorker none true] →
        v ∈ others ∨ v = Worker.mk p.nextWorker none true := by
      intro v hv
      simpa using hv
    have hsound : SoundBut { p with
        workers := others ++ [{ id := p.nextWorker }]
        nextWorker := p.nextWorker + 1
        failed := p.failed + 1
        respawned := p.respawned + 1
        answers := (j.ticket, .error (.workerFault w.id j.task.id (crashMessage message)))
          :: p.answers } (some p.nextWorker) := by
      refine ⟨⟨?_, ?_, ?_⟩, ?_, h.closed, ?_⟩
      · rw [List.map_append]
        refine List.nodup_append.2 ⟨hids, List.nodup_singleton _, ?_⟩
        intro a ha b hb
        obtain ⟨v, hv, rfl⟩ := List.mem_map.1 ha
        rw [List.mem_singleton.1 hb]
        exact Nat.ne_of_lt (h.id_lt v (hmem v hv))
      · intro v hv
        rcases hlast hv with hv | rfl
        · exact Nat.lt_succ_of_lt (h.id_lt v (hmem v hv))
        · exact Nat.lt_succ_self _
      · intro hopen
        refine ⟨by simp, fun v hv => ?_⟩
        rcases hlast hv with hv | rfl
        · exact (h.isOpen hopen).2 v (hmem v hv)
        · rfl
      · rw [pending]
        rw [hjobs]
        exact hbooked
      · intro hne v hv hfree
        rcases hlast hv with hv | rfl
        · cases h.busy hne v (hmem v hv) hfree
        · rfl
    obtain ⟨hnext, hkept, hanswers, -⟩ :=
      hsound.takeNext (w := { id := p.nextWorker }) (by simp) rfl
    refine ⟨hnext, hperm.trans ((hkept.trans ?_).symm.cons j), hanswers⟩
    rw [pending]
    rw [hjobs]

/-- A pool goes on by the verdict of a worker on its task. -/
lemma exists_of_advance? {verdict? : Task → Option Verdict} {p' : Pool}
    (hstep : p.advance? verdict? = some p') :
    ∃ w ∈ p.workers, ∃ j v, w.job = some j ∧ verdict? j.task = some v
      ∧ p' = p.conclude w.id j.task.id v := by
  rw [Pool.advance?, Pool.ready?] at hstep
  obtain ⟨⟨id, taskId, v⟩, hready, rfl⟩ := Option.map_eq_some_iff.1 hstep
  obtain ⟨w, hw, hsome⟩ := List.exists_of_findSome?_eq_some hready
  obtain ⟨j, hjob, hverdict⟩ := Option.bind_eq_some_iff.1 hsome
  obtain ⟨v', hv, heq⟩ := Option.map_eq_some_iff.1 hverdict
  cases heq
  exact ⟨w, hw, j, v, hjob, hv, rfl⟩

/-- One verdict answers one pending task. -/
theorem SoundBut.advance? (h : p.Sound) {verdict? : Task → Option Verdict} {p' : Pool}
    (hstep : p.advance? verdict? = some p') :
    ∃ j v outcome, verdict? j.task = some v ∧ Concludes j.task v outcome ∧ p'.Sound
      ∧ p.pending.Perm (j :: p'.pending) ∧ p'.answers = (j.ticket, outcome) :: p.answers := by
  obtain ⟨w, hw, j, v, hjob, hv, rfl⟩ := exists_of_advance? hstep
  cases v with
  | compiled output dependencies =>
      obtain ⟨hsound, hperm, hanswers⟩ :=
        SoundBut.report h hw hjob (.ofCompiled j.task.id output dependencies)
      exact ⟨j, _, _, hv, .compiled output dependencies, hsound, hperm, hanswers⟩
  | refused message =>
      obtain ⟨hsound, hperm, hanswers⟩ :=
        SoundBut.report h hw hjob (.ofRefused j.task.id message)
      exact ⟨j, _, _, hv, .refused message, hsound, hperm, hanswers⟩
  | crashed message =>
      obtain ⟨hsound, hperm, hanswers⟩ := SoundBut.crash h hw hjob message
      exact ⟨j, _, _, hv, .crashed w.id message, hsound, hperm, hanswers⟩

/-- A sound pool can only come to rest without pending tasks, when every task has a verdict. -/
theorem SoundBut.pending_eq_nil (h : p.Sound) {verdict : Task → Verdict}
    (hrest : p.advance? (fun t => some (verdict t)) = none) : p.pending = [] := by
  have hidle : ∀ w ∈ p.workers, w.job = none := by
    intro w hw
    rw [Pool.advance?, Pool.ready?] at hrest
    have hnone := List.findSome?_eq_none_iff.1 (Option.map_eq_none_iff.1 hrest) w hw
    cases hjob : w.job with
    | none => rfl
    | some j => simp [hjob] at hnone
  have hqueue : p.queue = [] := by
    by_contra hne
    have hshut : p.isShuttingDown = false := by
      by_contra hshut
      exact hne (h.closed (by simpa using hshut))
    obtain ⟨w, hw⟩ := List.exists_mem_of_ne_nil _ (h.isOpen hshut).1
    cases h.busy hne w hw (hidle w hw)
  rw [pending]
  rw [hqueue, List.append_nil]
  exact List.filterMap_eq_nil_iff.2 hidle

lemma exists_start {size capacity : Nat} (hsize : 1 ≤ size) (hcapacity : 1 ≤ capacity) :
    ∃ p, start size capacity = .ok p := by
  rw [start, if_neg (Nat.ne_of_gt hsize), if_neg (Nat.ne_of_gt hcapacity)]
  exact ⟨_, rfl⟩

/-- What a pool is at its start. -/
lemma eq_of_start {size capacity : Nat} {p : Pool} (h : start size capacity = .ok p) :
    p = {
      size, capacity
      workers := (List.range size).map fun id => { id }
      nextWorker := size } := by
  rw [start] at h
  split_ifs at h
  exact (Except.ok.inj h).symm

/-- A pool starts sound. -/
theorem sound_start {size capacity : Nat} {p : Pool} (h : start size capacity = .ok p) :
    p.Sound := by
  rw [start] at h
  split_ifs at h with hsize hcapacity
  cases h
  have hids :
      ((List.range size).map fun id => ({ id } : Worker)).map Worker.id = List.range size := by
    rw [List.map_map]
    exact List.map_id _
  have hjobs : ((List.range size).map fun id => ({ id } : Worker)).filterMap Worker.job = [] := by
    simp
  refine ⟨⟨?_, ?_, ?_⟩, ?_, fun _ => rfl, fun hne => absurd rfl hne⟩
  · rw [hids]
    exact List.nodup_range
  · simp
  · simp [hsize]
  · rw [pending]
    rw [hjobs]
    exact ⟨List.nodup_nil, by simp, by simp, by simp⟩

end Pool
end Rebuild
