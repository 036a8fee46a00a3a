import Rebuild.Proofs.Pool.Sound

/-!
# What a step does to each worker

`Pool.worker?` after each step of a pool, number by number, and what of the pool a step leaves
alone.

* **Tasks that follow.**  `following?` is the task that goes on to a worker that is done, or to the
  one that takes the place of a worker that is gone.
* **Workers.**  `worker?_report` and `worker?_crash` say who has which task afterwards.
* **The rest.**  `SoundBut.conclude` puts both ends of a task together, and `SoundBut.beginShutdown`
  and `SoundBut.leave` are the steps of a pool that shuts down.
-/

namespace Rebuild

/-! ## Tickets -/

/-- The waiting tasks are answered one after the other. -/
lemma Booked.answerAll {jobs queue : List Job} {answers : List (Ticket × Outcome)} {next : Ticket}
    (h : Booked (jobs ++ queue) answers next) (outcome : Outcome) :
    Booked jobs ((queue.map fun job => (job.ticket, outcome)).reverse ++ answers) next := by
  induction queue generalizing answers with
  | nil => rwa [List.append_nil] at h
  | cons j queue ih =>
      -- The log has the latest answer first, so the oldest task is answered first.
      have hanswered := (h.perm List.perm_middle).answer outcome
      have hall := ih hanswered
      rwa [List.map_cons, List.reverse_cons, List.append_assoc, List.singleton_append]

/-! ## Judgements -/

/-- What a compiler said of a task, and on which worker. -/
structure Judgement where
  worker : Nat
  job : Job
  verdict : Verdict

namespace Judgement

/-- The compiler broke down, and the worker with it. -/
def isCrash (d : Judgement) : Bool :=
  match d.verdict with
  | .crashed _ => true
  | _ => false

/-- The answer that is due. -/
def outcome (d : Judgement) : Outcome :=
  match d.verdict with
  | .compiled output dependencies => .ok (.ofCompiled d.job.task.id output dependencies)
  | .refused message => .ok (.ofRefused d.job.task.id message)
  | .crashed message =>
    .error (.workerFault d.worker d.job.task.id (Pool.crashMessage message))

/-- It concludes the task. -/
lemma concludes (d : Judgement) : Pool.Concludes d.job.task d.verdict d.outcome := by
  obtain ⟨worker, job, verdict⟩ := d
  cases verdict with
  | compiled output dependencies => exact .compiled output dependencies
  | refused message => exact .refused message
  | crashed message => exact .crashed worker message

end Judgement

namespace Pool

variable {p : Pool}

/-! ## Tasks that follow -/

/-- The task that is the next to be handed out. -/
def next? (p : Pool) : Option Job := if p.isShuttingDown then none else p.queue.head?

/-- The task that goes on when the worker of a number, if there is one, is done or gone. -/
def following? (p : Pool) (id : Nat) : Option Job := (p.worker? id).bind fun _ => p.next?

/-! ## Workers -/

lemma worker?_updateWorker (f : Worker → Worker) (hf : ∀ v, (f v).id = v.id) (id id' : Nat) :
    (p.updateWorker id f).worker? id'
      = if id' = id then (p.worker? id').map f else p.worker? id' := by
  have hid : (fun w : Worker => w.id == id') ∘ (fun w => if w.id = id then f w else w)
      = fun w => w.id == id' := by
    funext w
    simp only [Function.comp]
    split_ifs <;> simp [hf]
  rw [worker?, updateWorker, List.find?_map, hid]
  show (p.worker? id').map _ = _
  cases hfound : p.worker? id' with
  | none => simp
  | some w =>
      have hw : w.id = id' := (mem_of_worker? hfound).2
      rw [Option.map_some, Option.map_some, hw]
      split_ifs <;> rfl

/-- An accepted task has the next ticket, and is with the first free worker or last in the queue. -/
lemma submit_cases {task : Task} {p' : Pool} {ticket : Ticket}
    (h : p.submit task = .ok (p', ticket)) : ticket = p.nextTicket
      ∧ ((∃ w, p.freeWorker? = some w ∧ p'
          = updateWorker { p with nextTicket := p.nextTicket + 1 } w.id (·.take ⟨ticket, task⟩))
        ∨ (p.freeWorker? = none ∧ p'
          = { p with queue := p.queue ++ [⟨ticket, task⟩], nextTicket := p.nextTicket + 1 })) := by
  rw [submit] at h
  split at h
  case isTrue => cases h
  case isFalse =>
    split at h
    case h_1 w hfree =>
      cases h
      exact ⟨rfl, .inl ⟨w, hfree, rfl⟩⟩
    case h_2 hfree =>
      split at h
      case isTrue =>
        cases h
        exact ⟨rfl, .inr ⟨hfree, rfl⟩⟩
      case isFalse => cases h

lemma worker?_takeNext {id : Nat} (hidle : ∀ w, p.worker? id = some w → w.job = none) (id' : Nat) :
    (p.takeNext id).worker? id'
      = if id' = id then (p.worker? id').map fun w => { w with job := p.next? }
        else p.worker? id' := by
  -- Without a next task the worker stays as it is, which is idle.
  have hstays : p.next? = none → p.worker? id'
      = if id' = id then (p.worker? id').map fun w => { w with job := p.next? }
        else p.worker? id' := by
    intro hnext
    rw [hnext]
    split_ifs with hid
    · subst hid
      cases hfound : p.worker? id' with
      | none => rfl
      | some w =>
          rw [Option.map_some, ← hidle w hfound]
    · rfl
  rw [takeNext]
  by_cases hshut : p.isShuttingDown = true
  · rw [if_pos hshut]
    exact hstays (if_pos hshut)
  · have hnext : p.next? = p.queue.head? := if_neg hshut
    rw [if_neg hshut]
    cases hqueue : p.queue with
    | nil => exact hstays (by rw [hnext, hqueue]; rfl)
    | cons job rest =>
        show (updateWorker { p with queue := rest } id (·.take job)).worker? id' = _
        rw [worker?_updateWorker (·.take job) (fun _ => rfl), hnext, hqueue]
        rfl

/-- Handing out a task changes nothing but workers and queue. -/
lemma exists_takeNext_eq (p : Pool) (id : Nat) :
    ∃ workers queue, p.takeNext id = { p with workers, queue } := by
  rw [takeNext]
  split_ifs
  · exact ⟨p.workers, p.queue, rfl⟩
  · split
    · exact ⟨p.workers, p.queue, rfl⟩
    · exact ⟨_, _, rfl⟩

variable {w : Worker} {j : Job}

lemma following?_of_worker? {id : Nat} (hw : p.worker? id = some w) :
    p.following? id = p.next? := by
  rw [following?, hw]
  rfl

/-- A worker that is done has the task that follows. -/
lemma worker?_report (hw : p.worker? w.id = some w) (hjob : w.job = some j) (outcome : TaskReport)
    (id : Nat) : (p.report w.id outcome).worker? id
      = if id = w.id then some { w with job := p.following? w.id } else p.worker? id := by
  rw [following?_of_worker? hw, report]
  simp only [hw, hjob]
  let idle : Pool := { (p.answer j.ticket (.ok outcome)).updateWorker w.id Worker.rest with
    completed := p.completed + 1 }
  have hidle : ∀ id, idle.worker? id
      = if id = w.id then (p.worker? id).map Worker.rest else p.worker? id :=
    worker?_updateWorker (p := p.answer j.ticket (.ok outcome)) Worker.rest (fun _ => rfl) w.id
  show (idle.takeNext w.id).worker? id = _
  rw [worker?_takeNext, hidle id]
  · split_ifs with hid
    · rw [hid, hw]
      rfl
    · rfl
  · intro v hv
    rw [hidle, if_pos rfl, hw] at hv
    cases hv
    rfl

/-- The pool after a worker that broke down, before another takes its place. -/
def without (p : Pool) (w : Worker) (message : Option String) : Pool :=
  { p with
    workers := p.workers.filter fun v => !(v.id == w.id)
    failed := p.failed + w.job.toList.length
    answers := (w.job.toList.map fun j =>
      (j.ticket, .error (.workerFault w.id j.task.id (crashMessage message)))) ++ p.answers }

/-- The pool with a new worker. -/
def withNewWorker (p : Pool) : Pool :=
  { p with
    workers := p.workers ++ [{ id := p.nextWorker }]
    nextWorker := p.nextWorker + 1
    respawned := p.respawned + 1 }

lemma crash_eq (hw : p.worker? w.id = some w) (message : Option String) :
    p.crash w.id message = if p.isShuttingDown then p.without w message
      else (p.without w message).withNewWorker.takeNext p.nextWorker := by
  rw [crash, hw]
  cases hjob : w.job with
  | none => simp only [without, hjob]; rfl
  | some j => simp only [without, hjob]; rfl

lemma worker?_without (w : Worker) (message : Option String) (id : Nat) :
    (p.without w message).worker? id = if id = w.id then none else p.worker? id := by
  rw [worker?, without, List.find?_filter]
  split_ifs with hid
  · rw [List.find?_eq_none]
    intro v _
    simp [hid]
  · refine congrArg (List.find? · p.workers) (funext fun v => ?_)
    cases hv : v.id == id with
    | false => simp
    | true =>
        have hne : v.id ≠ w.id := fun hw => hid (by rw [← hw, beq_iff_eq.1 hv])
        simp [hne]

lemma worker?_withNewWorker (hlt : ∀ v ∈ p.workers, v.id < p.nextWorker) (id : Nat) :
    p.withNewWorker.worker? id
      = if id = p.nextWorker then some { id := p.nextWorker } else p.worker? id := by
  rw [worker?, withNewWorker, List.find?_append]
  split_ifs with hid
  · -- All others have smaller numbers, so none of them is found first.
    have hnone : p.workers.find? (·.id == id) = none := by
      rw [List.find?_eq_none]
      intro v hv
      simpa [hid] using Nat.ne_of_lt (hlt v hv)
    rw [hnone, hid]
    simp
  · have hnone : [({ id := p.nextWorker } : Worker)].find? (·.id == id) = none := by
      simpa using fun h => hid h.symm
    rw [hnone, Option.or_none]
    rfl

/-- A worker that broke down is gone, and the one in its place has the task that follows. -/
lemma worker?_crash (hlt : ∀ v ∈ p.workers, v.id < p.nextWorker) (hw : p.worker? w.id = some w)
    (message : Option String) (id : Nat) : (p.crash w.id message).worker? id
      = if p.isShuttingDown = false ∧ id = p.nextWorker then
          some { id := p.nextWorker, job := p.following? w.id }
        else if id = w.id then none else p.worker? id := by
  rw [following?_of_worker? hw, crash_eq hw]
  cases hshut : p.isShuttingDown with
  | true =>
      rw [if_pos rfl, if_neg (by simp), worker?_without]
  | false =>
      have hleft : ∀ v ∈ (p.without w message).workers, v.id < p.nextWorker :=
        fun v hv => hlt v (List.mem_filter.1 hv).1
      have hnew : ∀ id, (p.without w message).withNewWorker.worker? id
          = if id = p.nextWorker then some { id := p.nextWorker }
            else if id = w.id then none else p.worker? id := by
        intro id
        rw [worker?_withNewWorker hleft, worker?_without]
        rfl
      rw [if_neg Bool.false_ne_true, worker?_takeNext, hnew]
      · by_cases hid : id = p.nextWorker
        · rw [if_pos hid, if_pos hid, if_pos (And.intro rfl hid)]
          rfl
        · rw [if_neg hid, if_neg hid, if_neg fun h : false = false ∧ id = p.nextWorker => hid h.2]
      · intro v hv
        rw [hnew, if_pos rfl] at hv
        cases hv
        rfl

/-! ## Ends of tasks -/

/-- The task of a judgement, and no other, has been answered and counted. -/
structure Concluded (p : Pool) (d : Judgement) (p' : Pool) : Prop where
  sound : p'.Sound
  pending : p.pending.Perm (d.job :: p'.pending)
  answers : p'.answers = (d.job.ticket, d.outcome) :: p.answers
  nextTicket : p'.nextTicket = p.nextTicket
  completed : p'.completed = p.completed + if d.isCrash then 0 else 1
  failed : p'.failed = p.failed + if d.isCrash then 1 else 0

lemma report_counters (hw : p.worker? w.id = some w) (outcome : TaskReport) :
    (p.report w.id outcome).nextTicket = p.nextTicket
      ∧ (p.report w.id outcome).completed = p.completed + 1
      ∧ (p.report w.id outcome).failed = p.failed := by
  rw [report]
  simp only [hw]
  obtain ⟨workers, queue, heq⟩ := exists_takeNext_eq _ w.id
  rw [heq]
  cases w.job <;> exact ⟨rfl, rfl, rfl⟩

lemma crash_counters (hw : p.worker? w.id = some w) (message : Option String) :
    (p.crash w.id message).nextTicket = p.nextTicket
      ∧ (p.crash w.id message).completed = p.completed
      ∧ (p.crash w.id message).failed = p.failed + w.job.toList.length := by
  rw [crash_eq hw]
  split_ifs
  · exact ⟨rfl, rfl, rfl⟩
  · obtain ⟨workers, queue, heq⟩ :=
      exists_takeNext_eq (p.without w message).withNewWorker p.nextWorker
    rw [heq]
    exact ⟨rfl, rfl, rfl⟩

lemma SoundBut.conclude (h : p.Sound) {d : Judgement} (hw : p.worker? d.worker = some w)
    (hjob : w.job = some d.job) :
    p.Concluded d (p.conclude d.worker d.job.task.id d.verdict) := by
  obtain ⟨id, j, v⟩ := d
  obtain ⟨hmem, rfl⟩ := mem_of_worker? hw
  cases v with
  | compiled output dependencies =>
      obtain ⟨hsound, hpending, hanswers⟩ :=
        SoundBut.report h hmem hjob (.ofCompiled j.task.id output dependencies)
      obtain ⟨hticket, hcompleted, hfailed⟩ :=
        report_counters hw (.ofCompiled j.task.id output dependencies)
      exact ⟨hsound, hpending, hanswers, hticket, hcompleted, hfailed⟩
  | refused message =>
      obtain ⟨hsound, hpending, hanswers⟩ :=
        SoundBut.report h hmem hjob (.ofRefused j.task.id message)
      obtain ⟨hticket, hcompleted, hfailed⟩ := report_counters hw (.ofRefused j.task.id message)
      exact ⟨hsound, hpending, hanswers, hticket, hcompleted, hfailed⟩
  | crashed message =>
      obtain ⟨hsound, hpending, hanswers⟩ := SoundBut.crash h hmem hjob message
      obtain ⟨hticket, hcompleted, hfailed⟩ := crash_counters hw message
      rw [hjob] at hfailed
      exact ⟨hsound, hpending, hanswers, hticket, hcompleted, hfailed⟩

/-! ## Shutting down -/

lemma worker?_beginShutdown (id : Nat) : p.beginShutdown.worker? id
    = (p.worker? id).map fun w => { w with isOpen := false } := by
  rw [worker?, beginShutdown, List.find?_map]
  rfl

lemma jobs_beginShutdown (p : Pool) :
    p.beginShutdown.workers.filterMap Worker.job = p.workers.filterMap Worker.job := by
  rw [beginShutdown, List.filterMap_map]
  rfl

lemma pending_beginShutdown (p : Pool) :
    p.beginShutdown.pending = p.workers.filterMap Worker.job := by
  rw [pending, jobs_beginShutdown]
  exact List.append_nil _

lemma SoundBut.beginShutdown (h : p.Sound) : p.beginShutdown.Sound where
  nodup_ids := by
    rw [Pool.beginShutdown, List.map_map]
    exact h.nodup_ids
  id_lt v hv := by
    obtain ⟨u, hu, rfl⟩ := List.mem_map.1 hv
    exact h.id_lt u hu
  isOpen hshut := by cases hshut
  booked := by
    rw [pending_beginShutdown]
    exact h.booked.answerAll _
  closed _ := rfl
  busy hne := absurd rfl hne

lemma crash_idle (hshut : p.isShuttingDown = true) (hw : p.worker? w.id = some w)
    (hidle : w.job = none) (message : Option String) : p.crash w.id message
      = { p with workers := p.workers.filter fun v => !(v.id == w.id) } := by
  rw [crash_eq hw, if_pos hshut, without, hidle]
  rfl

lemma SoundBut.leave (h : p.Sound) (hshut : p.isShuttingDown = true)
    (hw : p.worker? w.id = some w) (hidle : w.job = none) (message : Option String) :
    (p.crash w.id message).Sound ∧ p.pending.Perm (p.crash w.id message).pending := by
  have hjobs := jobs_perm h.nodup_ids (mem_of_worker? hw).1
  rw [hidle] at hjobs
  have hpending := hjobs.append_right p.queue
  rw [crash_idle hshut hw hidle]
  refine ⟨⟨⟨?_, ?_, ?_⟩, h.booked.perm hpending, h.closed, ?_⟩, hpending⟩
  · exact h.nodup_ids.sublist (List.filter_sublist.map Worker.id)
  · exact fun v hv => h.id_lt v (List.mem_filter.1 hv).1
  · exact fun hopen => absurd (hshut.symm.trans hopen) (by simp)
  · exact fun hne => absurd (h.closed hshut) hne

lemma foldl_crash_idle {gone : List Worker} (hshut : p.isShuttingDown = true)
    (hids : (p.workers.map Worker.id).Nodup) (hnodup : (gone.map Worker.id).Nodup)
    (hgone : ∀ w ∈ gone, w ∈ p.workers ∧ w.job = none) :
    gone.foldl (fun p w => p.crash w.id none) p
      = { p with workers := p.workers.filter fun v => gone.all fun w => !(v.id == w.id) } := by
  induction gone generalizing p with
  | nil => simp
  | cons w gone ih =>
      obtain ⟨⟨hmem, hidle⟩, hrest⟩ := List.forall_mem_cons.1 hgone
      obtain ⟨hfirst, hnodup⟩ := List.nodup_cons.1 hnodup
      rw [List.foldl_cons, crash_idle hshut (worker?_of_mem hids hmem) hidle]
      -- The others are told apart from the first by their numbers, so they are still there.
      have hleft : ∀ v ∈ gone, v ∈ p.workers.filter (fun v => !(v.id == w.id)) ∧ v.job = none := by
        intro v hv
        have hne : v.id ≠ w.id := fun heq => hfirst (heq ▸ List.mem_map_of_mem hv)
        exact ⟨List.mem_filter.2 ⟨(hrest v hv).1, by simpa using hne⟩, (hrest v hv).2⟩
      rw [ih (p := { p with workers := p.workers.filter fun v => !(v.id == w.id) }) hshut
        (hids.sublist (List.filter_sublist.map Worker.id)) hnodup hleft]
      show ({ p with workers := (p.workers.filter _).filter _ } : Pool) = _
      rw [List.filter_filter]
      simp only [List.all_cons, Bool.and_comm]

/-- To let the closed workers go that have nothing to do is to let them end one after the other. -/
theorem retire_eq_foldl_crash (h : p.Sound) (hshut : p.isShuttingDown = true) :
    p.retire = (p.workers.filter fun w => !w.isOpen && w.isIdle).foldl
      (fun p w => p.crash w.id none) p := by
  have hgone : ∀ w ∈ p.workers.filter (fun w => !w.isOpen && w.isIdle),
      w ∈ p.workers ∧ w.job = none := by
    intro w hw
    obtain ⟨hmem, hw⟩ := List.mem_filter.1 hw
    exact ⟨hmem, Option.isNone_iff_eq_none.1 (Bool.and_eq_true_iff.1 hw).2⟩
  rw [foldl_crash_idle hshut h.nodup_ids
    (h.nodup_ids.sublist (List.filter_sublist.map Worker.id)) hgone, retire]
  have hsame : ∀ v ∈ p.workers, (v.isOpen || !v.isIdle)
      = (p.workers.filter fun w => !w.isOpen && w.isIdle).all fun w => !(v.id == w.id) := by
    intro v hv
    rw [Bool.eq_iff_iff, List.all_eq_true]
    constructor
    · intro hstays w hw
      obtain ⟨hmem, hw⟩ := List.mem_filter.1 hw
      have hne : v.id ≠ w.id := by
        intro heq
        rw [eq_of_id h.nodup_ids hv hmem heq] at hstays
        revert hstays hw
        cases w.isOpen <;> cases w.isIdle <;> simp
      simpa using hne
    · intro hall
      by_contra hgoes
      have hself := hall v (List.mem_filter.2 ⟨hv, by
        revert hgoes
        cases v.isOpen <;> cases v.isIdle <;> simp⟩)
      simp at hself
  rw [List.filter_congr hsame]

end Pool
end Rebuild
