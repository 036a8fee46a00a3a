import Rebuild.Proofs.Pool.Threads

/-!
# Every accepted task is answered once

* **Books.**  `Crew.Ledger` divides the accepted tasks: they are pending, told of or turned away,
  and the pool has answered just the last two.  What was told is what a compiler said
  (`Crew.Heard`).
* **Invariant.**  `Crew.Good` is kept by every step.
* **Endpoint.**  `every_task_answered_once`: an accepted task is in one place, and what is answered
  to it is its own outcome.  `Good.exists_working`: who is not answered yet does not wait in vain.
-/

namespace Rebuild.Crew

variable {p : Pool} {threads : Nat → Option WorkerThread} {c : Crew} {w : Worker} {j : Job}

/-! ## The books -/

/-- The answer to a task that is turned away. -/
def refusal (j : Job) : Ticket × Outcome := (j.ticket, .error .poolShuttingDown)

/-- What has become of the accepted tasks. -/
structure Ledger (c : Crew) : Prop where
  tickets : c.accepted.map Job.ticket = List.range c.pool.nextTicket
  divided : c.accepted.Perm (c.pool.pending ++ (c.told.map Judgement.job ++ c.turnedAway))
  answers : c.pool.answers.Perm
    (c.told.map (fun d => (d.job.ticket, d.outcome)) ++ c.turnedAway.map refusal)
  completed : c.pool.completed = c.told.countP fun d => !d.isCrash
  failed : c.pool.failed = c.told.countP Judgement.isCrash

lemma Ledger.submit (h : c.Ledger) (hsound : c.pool.Sound) {task : Task} {p' : Pool}
    {ticket : Ticket} (hsubmit : c.pool.submit task = .ok (p', ticket))
    (threads : Nat → Option WorkerThread) :
    Ledger { c with pool := p', threads, accepted := c.accepted ++ [⟨ticket, task⟩] } := by
  have hpending := (Pool.SoundBut.submit hsound hsubmit).2.1
  have hdivided : (c.accepted ++ [Job.mk ticket task]).Perm
      (p'.pending ++ (c.told.map Judgement.job ++ c.turnedAway)) := by
    have hmore := (h.divided.cons (Job.mk ticket task)).trans (hpending.symm.append_right _)
    exact (List.perm_append_singleton _ _).trans hmore
  have htickets : (c.accepted ++ [Job.mk ticket task]).map Job.ticket
      = List.range (c.pool.nextTicket + 1) := by
    rw [List.map_append, h.tickets, (Pool.submit_cases hsubmit).1, List.range_succ]
    rfl
  obtain ⟨-, ⟨w, -, rfl⟩ | ⟨-, rfl⟩⟩ := Pool.submit_cases hsubmit
  · exact ⟨htickets, hdivided, h.answers, h.completed, h.failed⟩
  · exact ⟨htickets, hdivided, h.answers, h.completed, h.failed⟩

lemma Ledger.tell (h : c.Ledger) {d : Judgement} {p' : Pool} (hp : c.pool.Concluded d p')
    (threads : Nat → Option WorkerThread) :
    Ledger { c with pool := p', threads, told := c.told ++ [d] } where
  tickets := h.tickets.trans (by rw [hp.nextTicket])
  divided := by
    have hout : c.accepted.Perm
        (p'.pending ++ d.job :: (c.told.map Judgement.job ++ c.turnedAway)) :=
      (h.divided.trans (hp.pending.append_right _)).trans List.perm_middle.symm
    show c.accepted.Perm (p'.pending ++ ((c.told ++ [d]).map Judgement.job ++ c.turnedAway))
    rw [List.map_append, List.append_assoc]
    exact hout.trans (List.perm_middle.symm.append_left _)
  answers := by
    show p'.answers.Perm ((c.told ++ [d]).map _ ++ _)
    rw [hp.answers, List.map_append, List.append_assoc]
    exact (h.answers.cons _).trans List.perm_middle.symm
  completed := by
    show p'.completed = (c.told ++ [d]).countP _
    rw [hp.completed, h.completed, List.countP_append, List.countP_singleton]
    cases d.isCrash <;> rfl
  failed := by
    show p'.failed = (c.told ++ [d]).countP _
    rw [hp.failed, h.failed, List.countP_append, List.countP_singleton]

lemma Ledger.shutdown (h : c.Ledger) (hclosed : c.pool.isShuttingDown = true → c.pool.queue = []) :
    Ledger { c with
      pool := c.pool.beginShutdown
      turnedAway :=
        if c.pool.isShuttingDown then c.turnedAway else c.turnedAway ++ c.pool.queue } := by
  have hqueue : (if c.pool.isShuttingDown then c.turnedAway else c.turnedAway ++ c.pool.queue)
      = c.turnedAway ++ c.pool.queue := by
    -- At a second shutdown there is nobody left to be turned away.
    split_ifs with hshut
    · rw [hclosed hshut, List.append_nil]
    · rfl
  rw [hqueue]
  refine ⟨h.tickets, ?_, ?_, h.completed, h.failed⟩
  · show c.accepted.Perm (c.pool.beginShutdown.pending ++ (_ ++ (c.turnedAway ++ c.pool.queue)))
    rw [Pool.pending_beginShutdown]
    refine h.divided.trans ?_
    rw [Pool.pending, List.append_assoc, ← List.append_assoc _ c.turnedAway]
    exact List.perm_append_comm.append_left _
  · show (_ ++ c.pool.answers).Perm (_ ++ (c.turnedAway ++ c.pool.queue).map refusal)
    rw [List.map_append, ← List.append_assoc]
    exact ((List.reverse_perm _).append h.answers).trans List.perm_append_comm

/-- What threads do among themselves is in no book. -/
lemma Ledger.apart (h : c.Ledger) (threads : Nat → Option WorkerThread) (said : List Judgement) :
    Ledger { c with threads, said } :=
  ⟨h.tickets, h.divided, h.answers, h.completed, h.failed⟩

lemma Ledger.nodup_answers (h : c.Ledger) : (c.pool.answers.map Prod.fst).Nodup := by
  have htickets : (c.accepted.map Job.ticket).Nodup := h.tickets ▸ List.nodup_range
  have hdivided := (h.divided.map Job.ticket).nodup_iff.1 htickets
  rw [List.map_append, List.map_append] at hdivided
  rw [(h.answers.map Prod.fst).nodup_iff, List.map_append, List.map_map, List.map_map]
  rw [List.map_map] at hdivided
  exact (List.nodup_append.1 hdivided).2.1

/-- What is among the answers is what is answered. -/
lemma Ledger.answer?_eq (h : c.Ledger) {ticket : Ticket} {outcome : Outcome}
    (hmem : (ticket, outcome) ∈ c.pool.answers) : c.pool.answer? ticket = some outcome := by
  have hnodup := h.nodup_answers
  obtain ⟨before, after, hsplit⟩ := List.append_of_mem hmem
  rw [hsplit, List.map_append, List.map_cons, List.nodup_middle] at hnodup
  rw [Pool.answer?, hsplit, List.lookup_eq_some_iff]
  refine ⟨before, after, rfl, fun a ha => bne_iff_ne.2 fun heq => ?_⟩
  refine (List.nodup_cons.1 hnodup).1 (List.mem_append_left _ (List.mem_map.2 ⟨a, ha, ?_⟩))
  exact heq.symm

/-- So is all that threads are about to tell the pool. -/
def Tells (P : Judgement → Prop) (threads : Nat → Option WorkerThread) : Prop :=
  ∀ id t j v, threads id = some t → t.doing = .telling j v → P ⟨id, j, v⟩

section Tells

variable {P : Judgement → Prop} {id : Nat} {t : WorkerThread}

lemma Tells.update (h : Tells P threads) (ht : ∀ j v, t.doing = .telling j v → P ⟨id, j, v⟩) :
    Tells P (Function.update threads id (some t)) := by
  intro id' t' j v hthread htelling
  rw [Function.update_apply] at hthread
  split_ifs at hthread with hid
  · obtain rfl := Option.some.inj hthread
    rw [hid]
    exact ht j v htelling
  · exact h id' t' j v hthread htelling

lemma Tells.listening (h : Tells P threads) (id : Nat) (job : Option Job) :
    Tells P (Function.update threads id (some (WorkerThread.send {} job))) :=
  h.update fun j v htelling => by
    rw [WorkerThread.doing_send] at htelling
    cases htelling

lemma Tells.compiling (h : Tells P threads) (id : Nat) (channel : List Job) (j : Job) :
    Tells P (Function.update threads id (some ⟨channel, .compiling j⟩)) :=
  h.update fun j' v htelling => by cases htelling

lemma Tells.telling (h : Tells P threads) {v : Verdict} (hv : P ⟨id, j, v⟩) (channel : List Job) :
    Tells P (Function.update threads id (some ⟨channel, .telling j v⟩)) :=
  h.update fun j' v' htelling => by
    cases htelling
    exact hv

lemma Tells.sendTo (h : Tells P threads) (free : Option Worker) (job : Job) :
    Tells P (sendTo threads free job) := by
  cases free with
  | none => exact h
  | some w =>
      rw [Crew.sendTo]
      cases ht : threads w.id with
      | none =>
          rw [Option.map_none, ← ht, Function.update_eq_self]
          exact h
      | some t =>
          refine h.update fun j v htelling => ?_
          rw [WorkerThread.doing_send] at htelling
          exact h w.id t j v ht htelling

lemma Tells.without (h : Tells P c.threads) (id : Nat) : Tells P (c.threadsWithout id) := by
  have hothers : Tells P (Function.update c.threads id none) := by
    intro id' t j v hthread htelling
    rw [Function.update_apply] at hthread
    split_ifs at hthread
    exact h id' t j v hthread htelling
  rw [threadsWithout]
  split_ifs
  · exact hothers
  · exact hothers.listening _ _

/-- Who has told the pool listens again, or is gone. -/
lemma Tells.after (h : Tells P c.threads) (d : Judgement) : Tells P (c.threadsAfter d []) := by
  rw [threadsAfter]
  split_ifs
  · exact h.without d.worker
  · exact h.listening _ _

end Tells

/-- What a thread tells a compiler has said. -/
def Heard (said : List Judgement) (threads : Nat → Option WorkerThread) : Prop :=
  Tells (· ∈ said) threads

/-- What holds at any point. -/
structure Good (c : Crew) : Prop where
  sound : c.pool.Sound
  manned : Manned c.pool c.threads
  ledger : c.Ledger
  heard : Heard c.said c.threads
  said : ∀ d ∈ c.told, d ∈ c.said

/-! ## One step -/

lemma Good.submit (h : c.Good) {task : Task} {p' : Pool} {ticket : Ticket}
    (hsubmit : c.pool.submit task = .ok (p', ticket)) :
    Good { c with
      pool := p'
      threads := sendTo c.threads c.pool.freeWorker? ⟨ticket, task⟩
      accepted := c.accepted ++ [⟨ticket, task⟩] } where
  sound := (Pool.SoundBut.submit h.sound hsubmit).1
  manned := h.manned.submit h.sound.toStaffed hsubmit
  ledger := h.ledger.submit h.sound hsubmit _
  heard := h.heard.sendTo _ _
  said := h.said

lemma Good.tell (h : c.Good) {id : Nat} {j : Job} {v : Verdict} {channel : List Job}
    (ht : c.threads id = some ⟨channel, .telling j v⟩) :
    Good { c with
      pool := c.pool.conclude id j.task.id v
      threads := c.threadsAfter ⟨id, j, v⟩ channel
      told := c.told ++ [⟨id, j, v⟩] } := by
  -- The thread tells of the task that is noted under its worker, so the right ticket is answered.
  obtain ⟨w, hw, hserves⟩ := h.manned.exists_worker ht
  obtain ⟨hjob, hchannel⟩ := hserves.job_eq (j := j) rfl
  obtain rfl : channel = [] := hchannel
  obtain ⟨-, rfl⟩ := Pool.mem_of_worker? hw
  have hconcluded := Pool.SoundBut.conclude h.sound (d := ⟨w.id, j, v⟩) hw hjob
  have hsaid : ∀ d ∈ c.told ++ [(⟨w.id, j, v⟩ : Judgement)], d ∈ c.said := by
    intro d hd
    rcases List.mem_append.1 hd with hd | hd
    · exact h.said d hd
    · rw [List.mem_singleton.1 hd]
      exact h.heard w.id _ j v ht rfl
  refine ⟨hconcluded.sound, ?_, h.ledger.tell hconcluded _, h.heard.after _, hsaid⟩
  cases v with
  | compiled output dependencies => exact h.manned.report hw hjob _
  | refused message => exact h.manned.report hw hjob _
  | crashed message => exact h.manned.crash h.sound.toStaffed hw message

/-- Threads are only closed by a shutdown, and have nothing to do then. -/
lemma Good.of_closed (h : c.Good) {id : Nat} {channel : List Job}
    (ht : c.threads id = some ⟨channel, .closed⟩) :
    ∃ w, c.pool.worker? id = some w ∧ w.job = none ∧ c.pool.isShuttingDown = true := by
  obtain ⟨w, hw, hserves⟩ := h.manned.exists_worker ht
  obtain ⟨hchannel, hclosed⟩ := hserves.closed rfl
  obtain rfl : channel = [] := hchannel
  refine ⟨w, hw, Option.toList_eq_nil_iff.1 hserves.jobs.symm, ?_⟩
  by_contra hopen
  have hall := (h.sound.isOpen (Bool.eq_false_iff.2 hopen)).2 w (Pool.mem_of_worker? hw).1
  exact absurd (hall.symm.trans hclosed) (by simp)

lemma Good.leave (h : c.Good) {id : Nat} {channel : List Job}
    (ht : c.threads id = some ⟨channel, .closed⟩) :
    Good { c with pool := c.pool.crash id none, threads := c.threadsWithout id } := by
  -- The pool shuts down, so no other thread is started for this one.
  obtain ⟨w, hw, hidle, hshut⟩ := h.of_closed ht
  obtain ⟨-, rfl⟩ := Pool.mem_of_worker? hw
  obtain ⟨hsound, hpending⟩ := Pool.SoundBut.leave h.sound hshut hw hidle none
  have hmanned := h.manned.crash h.sound.toStaffed hw none
  have hledger := h.ledger
  have hdivided := hledger.divided.trans (hpending.append_right _)
  rw [Pool.crash_idle hshut hw hidle] at hsound hdivided hmanned ⊢
  exact ⟨hsound, hmanned,
    ⟨hledger.tickets, hdivided, hledger.answers, hledger.completed, hledger.failed⟩,
    h.heard.without w.id, h.said⟩

/-- **Every step keeps the invariant.** -/
lemma Good.step (h : c.Good) {c' : Crew} (hstep : Step c c') : c'.Good := by
  cases hstep with
  | submit task hsubmit => exact h.submit hsubmit
  | @receive j channel id ht =>
      refine ⟨h.sound, h.manned.update ht fun w _ hserves => ⟨hserves.jobs, ?_⟩, h.ledger.apart _ _,
        h.heard.compiling id channel j, h.said⟩
      exact fun hclosed => by cases hclosed
  | @judge j channel id v ht =>
      have hmore : Heard (c.said ++ [⟨id, j, v⟩]) c.threads := fun id' t' j' v' ht' htelling =>
        List.mem_append_left _ (h.heard id' t' j' v' ht' htelling)
      have hlast : (⟨id, j, v⟩ : Judgement) ∈ c.said ++ [⟨id, j, v⟩] :=
        List.mem_append_right _ List.mem_cons_self
      refine ⟨h.sound, h.manned.update ht fun w _ hserves => ⟨hserves.jobs, ?_⟩, h.ledger.apart _ _,
        hmore.telling hlast channel, fun d hd => List.mem_append_left _ (h.said d hd)⟩
      exact fun hclosed => by cases hclosed
  | tell id ht => exact h.tell ht
  | shutdown =>
      exact ⟨Pool.SoundBut.beginShutdown h.sound, h.manned.beginShutdown,
        h.ledger.shutdown h.sound.closed, h.heard, h.said⟩
  | hangUp id hclosed ht =>
      refine ⟨h.sound, h.manned.update ht fun w hw hserves => ⟨hserves.jobs, ?_⟩,
        h.ledger.apart _ _, h.heard.update fun j v htelling => ?_, h.said⟩
      · exact fun _ => ⟨rfl, hclosed w hw⟩
      · cases htelling
  | leave id ht => exact h.leave ht

lemma Good.steps (h : c.Good) {c' : Crew} (hsteps : Steps c c') : c'.Good := by
  induction hsteps with
  | refl => exact h
  | tail _ hstep ih => exact ih.step hstep

/-! ## Pools from their start on -/

lemma good_opening {size capacity : Nat} (h : Pool.start size capacity = .ok p) :
    (opening p).Good := by
  have hsound := Pool.sound_start h
  obtain rfl := Pool.eq_of_start h
  have hidle : ∀ w ∈ (List.range size).map fun id => ({ id } : Worker), w.job = none := by
    intro w hw
    obtain ⟨id, -, rfl⟩ := List.mem_map.1 hw
    rfl
  refine ⟨hsound, manned_opening _ hidle, ⟨rfl, ?_, .nil, rfl, rfl⟩, ?_, fun d hd => by cases hd⟩
  · show ([] : List Job).Perm
      (((List.range size).map fun id => ({ id } : Worker)).filterMap Worker.job ++ [] ++ [])
    rw [List.filterMap_eq_nil_iff.2 hidle]
    exact .nil
  · intro id t j v ht htelling
    obtain ⟨-, -, rfl⟩ := Option.map_eq_some_iff.1 ht
    cases htelling

/-- Every accepted task is accounted for. -/
structure Accounted (c : Crew) : Prop where
  /-- Submissions are told apart, even of the same task. -/
  distinct : (c.accepted.map Job.ticket).Nodup
  /-- An accepted task is queued once, or noted under one worker, or answered once. -/
  place : ∀ j ∈ c.accepted, c.pool.queue.count j
    + (c.pool.workers.filterMap Worker.job).count j
    + (c.pool.answers.map Prod.fst).count j.ticket = 1
  known : ∀ j ∈ c.pool.pending, j ∈ c.accepted
  /-- Channel and thread of a worker have the very task that is noted under it. -/
  held : ∀ w ∈ c.pool.workers, ∃ t, c.threads w.id = some t ∧ t.jobs = w.job.toList
  /-- No task is with any other thread. -/
  others : ∀ id t, c.threads id = some t → ∃ w ∈ c.pool.workers, w.id = id
  /-- Whoever can be given a task receives it. -/
  receives : ∀ w ∈ c.pool.workers, w.isFree = true →
    ∃ t, c.threads w.id = some t ∧ t.doing.receives = true
  /-- An answer is what was said of that task, or refuses a task that was queued at the shutdown. -/
  answered : ∀ a ∈ c.pool.answers,
    (∃ d ∈ c.said, d.job ∈ c.accepted ∧ a = (d.job.ticket, d.outcome))
      ∨ ∃ j ∈ c.turnedAway, j ∈ c.accepted ∧ a = (j.ticket, .error .poolShuttingDown)
  counts : c.accepted.length = c.pool.stats.queued + c.pool.stats.busy + c.pool.stats.completed
    + c.pool.stats.failed + c.turnedAway.length
  emptied : c.pool.isShuttingDown = true → c.pool.queue = []

lemma Good.nodup_tickets (h : c.Good) : (c.accepted.map Job.ticket).Nodup := by
  rw [h.ledger.tickets]
  exact List.nodup_range

lemma Good.count_ticket (h : c.Good) {j : Job} (hj : j ∈ c.accepted) {jobs : List Job}
    (hjobs : ∀ i ∈ jobs, i ∈ c.accepted) :
    (jobs.map Job.ticket).count j.ticket = jobs.count j := by
  rw [List.count, List.countP_map, List.count]
  refine List.countP_congr fun i hi => ?_
  rw [Function.comp, beq_iff_eq, beq_iff_eq]
  exact ⟨fun heq => List.inj_on_of_nodup_map h.nodup_tickets (hjobs i hi) hj heq, congrArg _⟩

lemma Good.place (h : c.Good) {j : Job} (hj : j ∈ c.accepted) : c.pool.queue.count j
    + (c.pool.workers.filterMap Worker.job).count j
    + (c.pool.answers.map Prod.fst).count j.ticket = 1 := by
  have hdivided := h.ledger.divided
  have hsettled : ∀ i ∈ c.told.map Judgement.job ++ c.turnedAway, i ∈ c.accepted :=
    fun i hi => hdivided.mem_iff.2 (List.mem_append_right _ hi)
  -- Answers have tickets only, which stand for their tasks among the accepted ones.
  have hanswers : (c.pool.answers.map Prod.fst).count j.ticket
      = (c.told.map Judgement.job ++ c.turnedAway).count j := by
    rw [(h.ledger.answers.map Prod.fst).count_eq, ← h.count_ticket hj hsettled, List.map_append,
      List.map_append, List.map_map, List.map_map, List.map_map]
    rfl
  have hone : c.accepted.count j = 1 :=
    List.count_eq_one_of_mem (List.Nodup.of_map _ h.nodup_tickets) hj
  rw [hdivided.count_eq, Pool.pending, List.count_append, List.count_append] at hone
  omega

lemma Good.answered (h : c.Good) {a : Ticket × Outcome} (ha : a ∈ c.pool.answers) :
    (∃ d ∈ c.said, d.job ∈ c.accepted ∧ a = (d.job.ticket, d.outcome))
      ∨ ∃ j ∈ c.turnedAway, j ∈ c.accepted ∧ a = (j.ticket, .error .poolShuttingDown) := by
  have hdivided := h.ledger.divided
  rcases List.mem_append.1 (h.ledger.answers.mem_iff.1 ha) with htold | hrefused
  · obtain ⟨d, hd, rfl⟩ := List.mem_map.1 htold
    have hjob : d.job ∈ c.accepted := hdivided.mem_iff.2
      (List.mem_append_right _ (List.mem_append_left _ (List.mem_map_of_mem hd)))
    exact .inl ⟨d, h.said d hd, hjob, rfl⟩
  · obtain ⟨j, hj, rfl⟩ := List.mem_map.1 hrefused
    have hjob : j ∈ c.accepted := hdivided.mem_iff.2
      (List.mem_append_right _ (List.mem_append_right _ hj))
    exact .inr ⟨j, hj, hjob, rfl⟩

lemma Good.counts (h : c.Good) : c.accepted.length = c.pool.stats.queued + c.pool.stats.busy
    + c.pool.stats.completed + c.pool.stats.failed + c.turnedAway.length := by
  have hlength := h.ledger.divided.length_eq
  have htold := c.told.length_eq_countP_add_countP Judgement.isCrash
  have hcompleted := h.ledger.completed
  have hfailed := h.ledger.failed
  rw [List.length_append, List.length_append, List.length_map, Pool.length_pending,
    Pool.load] at hlength
  simp only [Pool.stats]
  simp only [Bool.not_eq_true, ← Bool.not_eq_true', Bool.decide_eq_true] at htold
  omega

lemma Good.accounted (h : c.Good) : c.Accounted where
  distinct := h.nodup_tickets
  place _ hj := h.place hj
  known j hj := h.ledger.divided.mem_iff.2 (List.mem_append_left _ hj)
  held w hw := by
    obtain ⟨t, ht, hserves⟩ :=
      h.manned.exists_thread (Pool.worker?_of_mem h.sound.nodup_ids hw)
    exact ⟨t, ht, hserves.jobs⟩
  others id t ht := by
    obtain ⟨w, hw, -⟩ := h.manned.exists_worker ht
    exact ⟨w, Pool.mem_of_worker? hw⟩
  receives w hw hfree := by
    obtain ⟨t, ht, hserves⟩ :=
      h.manned.exists_thread (Pool.worker?_of_mem h.sound.nodup_ids hw)
    obtain rfl := hserves.of_free hfree
    exact ⟨_, ht, rfl⟩
  answered _ ha := h.answered ha
  counts := h.counts
  emptied := h.sound.closed

/-- **Every task is answered once.**  However submissions, threads, crashes and shutdowns follow on
each other, each accepted task is in one place; what is answered to it is what a compiler said of
this very submission, or the refusal of a task that was still queued; and the counts add up. -/
theorem every_task_answered_once {size capacity : Nat} (hsize : 1 ≤ size)
    (hcapacity : 1 ≤ capacity) : ∃ p, Pool.start size capacity = .ok p
      ∧ ∀ c, Steps (opening p) c → c.Accounted := by
  have hstart : ∃ p, Pool.start size capacity = .ok p := by
    rw [Pool.start, if_neg (Nat.ne_of_gt hsize), if_neg (Nat.ne_of_gt hcapacity)]
    exact ⟨_, rfl⟩
  obtain ⟨p, hp⟩ := hstart
  exact ⟨p, hp, fun c hsteps => ((good_opening hp).steps hsteps).accounted⟩

/-- An accepted task that is not answered is queued or noted under a worker. -/
lemma Good.mem_pending (h : c.Good) (hj : j ∈ c.accepted) (hopen : c.pool.answer? j.ticket = none) :
    j ∈ c.pool.pending := by
  have hunanswered : (c.pool.answers.map Prod.fst).count j.ticket = 0 := by
    rw [List.count_eq_zero]
    intro hmem
    obtain ⟨a, ha, hticket⟩ := List.mem_map.1 hmem
    have hne := List.lookup_eq_none_iff.1 hopen a ha
    simp [hticket] at hne
  have hplace := h.place hj
  rw [hunanswered] at hplace
  rw [Pool.pending, ← List.count_pos_iff, List.count_append]
  omega

/-- Nobody waits in vain: while an accepted task is not answered, a thread has something to do. -/
theorem Good.exists_working (h : c.Good) {j : Job} (hj : j ∈ c.accepted)
    (hopen : c.pool.answer? j.ticket = none) :
    ∃ id t, c.threads id = some t ∧ t.jobs ≠ [] ∧ t.doing ≠ .closed := by
  have hbusy : ∃ w ∈ c.pool.workers, w.job ≠ none := by
    by_contra hnone
    have hidle : ∀ w ∈ c.pool.workers, w.job = none := fun w hw =>
      by_contra fun hjob => hnone ⟨w, hw, hjob⟩
    have hrest : c.pool.advance? (fun _ => some (.refused "")) = none := by
      rw [Pool.advance?, Pool.ready?, Option.map_eq_none_iff, List.findSome?_eq_none_iff]
      intro w hw
      rw [hidle w hw]
      rfl
    have hpending := h.mem_pending hj hopen
    rw [Pool.SoundBut.pending_eq_nil h.sound hrest] at hpending
    cases hpending
  obtain ⟨w, hw, hjob⟩ := hbusy
  obtain ⟨t, ht, hserves⟩ := h.manned.exists_thread (Pool.worker?_of_mem h.sound.nodup_ids hw)
  have hjobs : t.jobs ≠ [] := by
    rw [hserves.jobs]
    exact fun hnil => hjob (Option.toList_eq_nil_iff.1 hnil)
  refine ⟨w.id, t, ht, hjobs, fun hclosed => hjobs ?_⟩
  rw [WorkerThread.jobs, hclosed, (hserves.closed hclosed).1]
  rfl

/-- A worker breaks down and its task fails, the next task goes on to the worker in its place, and a
second submission of the first task is turned away, by the first of two shutdowns. -/
theorem every_task_answered_once_crash :
    ∃ p c, Pool.start 1 2 = .ok p ∧ Steps (opening p) c ∧ c.Accounted
      ∧ c.accepted = [⟨0, { id := "a", path := ⟨"a"⟩, content := "" }⟩,
        ⟨1, { id := "b", path := ⟨"b"⟩, content := "" }⟩,
        ⟨2, { id := "a", path := ⟨"a"⟩, content := "" }⟩]
      ∧ c.pool.answers = [(1, .ok (.ofCompiled "b" "out" [])), (2, .error .poolShuttingDown),
        (0, .error (.workerFault 0 "a" "worker panicked: boom"))]
      ∧ c.pool.workers = [] := by
  obtain ⟨p, hp, haccounted⟩ := every_task_answered_once (Nat.le_refl 1) (by decide : 1 ≤ 2)
  cases hp
  have hgiven := Relation.ReflTransGen.single (Step.submit
    (c := opening { size := 1, capacity := 2, workers := [{ id := 0 }], nextWorker := 1 })
    { id := "a", path := ⟨"a"⟩, content := "" } rfl)
  have hqueued := hgiven.tail (.submit { id := "b", path := ⟨"b"⟩, content := "" } rfl)
  have hagain := hqueued.tail (.submit { id := "a", path := ⟨"a"⟩, content := "" } rfl)
  have htaken := hagain.tail (.receive 0 rfl)
  have hcrashed := (htaken.tail (.judge 0 (.crashed (some "boom")) rfl)).tail (.tell 0 rfl)
  have hshut := hcrashed.tail .shutdown
  have hnext := (hshut.tail (.receive 1 rfl)).tail (.judge 1 (.compiled "out" []) rfl)
  have hdone := (hnext.tail (.tell 1 rfl)).tail .shutdown
  have hsteps := (hdone.tail (.hangUp 1 (fun w hw => by cases hw; rfl) rfl)).tail (.leave 1 rfl)
  exact ⟨_, _, rfl, hsteps, haccounted _ hsteps, rfl, rfl, rfl⟩

end Rebuild.Crew
