import Mathlib.Logic.Function.Basic
import Mathlib.Logic.Relation
import Rebuild.Proofs.Pool.Steps

/-!
# Pools with their threads

A worker of a pool is a thread with a channel.  The pool notes a task under the worker and sends it
into the channel; the thread takes it out, compiles it, and tells the pool.  Neither waits for the
other, so between two of these moments anything else can happen.

* **Steps.**  `Crew.Step` is all that callers and threads can do.  A `Crew` remembers beside the
  pool what was accepted, what compilers said, and whom the pool turned away.
* **Service.**  A thread has the very task that is noted under its worker (`WorkerThread.Serves`),
  and `Manned` says so of all of them.  Every step of a pool keeps it.
-/

namespace Rebuild

/-! ## Threads -/

/-- What a thread is at. -/
inductive Doing where
  /-- It waits for its channel. -/
  | listening
  | compiling (job : Job)
  /-- It is about to tell the pool. -/
  | telling (job : Job) (verdict : Verdict)
  /-- Its channel was closed, and it is about to end. -/
  | closed

/-- The thread of a worker.  That a task that is sent has a ticket only says which one it is: no
step looks at it. -/
structure WorkerThread where
  /-- The tasks that were sent and not taken out, the oldest first. -/
  channel : List Job := []
  doing : Doing := .listening

namespace Doing

def job? : Doing → Option Job
  | compiling j => some j
  | telling j _ => some j
  | listening | closed => none

/-- There is someone at the other end of the channel: a thread that broke down or was closed has
dropped it. -/
def receives : Doing → Bool
  | telling _ (.crashed _) => false
  | closed => false
  | _ => true

end Doing

namespace WorkerThread

/-- All tasks that the thread has. -/
def jobs (t : WorkerThread) : List Job := t.doing.job?.toList ++ t.channel

/-- The thread with a task sent to it, if there is one.  What nobody receives is lost. -/
def send (t : WorkerThread) (job : Option Job) : WorkerThread :=
  if t.doing.receives then { t with channel := t.channel ++ job.toList } else t

@[simp] lemma doing_send (t : WorkerThread) (job : Option Job) : (t.send job).doing = t.doing := by
  rw [send]
  split_ifs <;> rfl

end WorkerThread

/-! ## Steps -/

/-- A pool and its threads, with what has happened to them. -/
structure Crew where
  pool : Pool
  /-- The thread under a number, if it was started and has not ended. -/
  threads : Nat → Option WorkerThread
  /-- The tasks that were accepted, in their order. -/
  accepted : List Job := []
  /-- What compilers said, in its order. -/
  said : List Judgement := []
  /-- What of it the pool was told, in its order. -/
  told : List Judgement := []
  /-- The tasks that were in the queue when the pool began to shut down. -/
  turnedAway : List Job := []

namespace Crew

/-- A pool whose threads have just been started. -/
def opening (p : Pool) : Crew where
  pool := p
  threads id := (p.worker? id).map fun _ => {}

/-- The threads with a task sent to a worker, if there is one. -/
def sendTo (threads : Nat → Option WorkerThread) (w : Option Worker) (job : Job) :
    Nat → Option WorkerThread :=
  match w with
  | none => threads
  | some w => Function.update threads w.id ((threads w.id).map (·.send (some job)))

/-- The threads when one of them has ended.  Another is started in its place, and goes on with the
queue, unless the pool shuts down or does not know the worker. -/
def threadsWithout (c : Crew) (id : Nat) : Nat → Option WorkerThread :=
  let others := Function.update c.threads id none
  if c.pool.isShuttingDown || (c.pool.worker? id).isNone then others
  else Function.update others c.pool.nextWorker (some (WorkerThread.send {} (c.pool.following? id)))

/-- The threads when one of them has told the pool of a task. -/
def threadsAfter (c : Crew) (d : Judgement) (channel : List Job) : Nat → Option WorkerThread :=
  if d.isCrash then c.threadsWithout d.worker
  else Function.update c.threads d.worker
    (some (WorkerThread.send ⟨channel, .listening⟩ (c.pool.following? d.worker)))

/-- What callers, threads and the pool can do.  A task that is not accepted changes nothing, and the
pool may be told to shut down again. -/
inductive Step : Crew → Crew → Prop where
  | submit {c : Crew} {p : Pool} {ticket : Ticket} (task : Task)
      (h : c.pool.submit task = .ok (p, ticket)) :
      Step c { c with
        pool := p
        threads := sendTo c.threads c.pool.freeWorker? ⟨ticket, task⟩
        accepted := c.accepted ++ [⟨ticket, task⟩] }
  | receive {c : Crew} {j : Job} {channel : List Job} (id : Nat)
      (h : c.threads id = some ⟨j :: channel, .listening⟩) :
      Step c { c with threads := Function.update c.threads id (some ⟨channel, .compiling j⟩) }
  | judge {c : Crew} {j : Job} {channel : List Job} (id : Nat) (v : Verdict)
      (h : c.threads id = some ⟨channel, .compiling j⟩) :
      Step c { c with
        threads := Function.update c.threads id (some ⟨channel, .telling j v⟩)
        said := c.said ++ [⟨id, j, v⟩] }
  | tell {c : Crew} {j : Job} {v : Verdict} {channel : List Job} (id : Nat)
      (h : c.threads id = some ⟨channel, .telling j v⟩) :
      Step c { c with
        pool := c.pool.conclude id j.task.id v
        threads := c.threadsAfter ⟨id, j, v⟩ channel
        told := c.told ++ [⟨id, j, v⟩] }
  | shutdown {c : Crew} :
      Step c { c with
        pool := c.pool.beginShutdown
        turnedAway :=
          if c.pool.isShuttingDown then c.turnedAway else c.turnedAway ++ c.pool.queue }
  | hangUp {c : Crew} (id : Nat) (hclosed : ∀ w, c.pool.worker? id = some w → w.isOpen = false)
      (h : c.threads id = some ⟨[], .listening⟩) :
      Step c { c with threads := Function.update c.threads id (some ⟨[], .closed⟩) }
  | leave {c : Crew} {channel : List Job} (id : Nat) (h : c.threads id = some ⟨channel, .closed⟩) :
      Step c { c with
        pool := c.pool.crash id none
        threads := c.threadsWithout id }

/-- Any number of steps. -/
abbrev Steps : Crew → Crew → Prop := Relation.ReflTransGen Step

end Crew

/-! ## Threads and their workers -/

/-- The thread has what is noted under its worker, and only hangs up on a closed one. -/
structure WorkerThread.Serves (w : Worker) (t : WorkerThread) : Prop where
  jobs : t.jobs = w.job.toList
  closed : t.doing = .closed → t.channel = [] ∧ w.isOpen = false

namespace WorkerThread.Serves

variable {w : Worker} {t : WorkerThread} {j : Job}

/-- An open worker that has nothing to do is heard by its thread. -/
lemma of_free (h : Serves w t) (hfree : w.isFree = true) : t = ⟨[], .listening⟩ := by
  rw [Worker.isFree, Worker.isIdle, Bool.and_eq_true, Option.isNone_iff_eq_none] at hfree
  obtain ⟨hidle, hopen⟩ := hfree
  have hjobs := h.jobs
  rw [hidle] at hjobs
  obtain ⟨hdoing, hchannel⟩ := List.append_eq_nil_iff.1 hjobs
  obtain ⟨channel, doing⟩ := t
  obtain rfl : channel = [] := hchannel
  cases doing with
  | listening => rfl
  | compiling j => cases hdoing
  | telling j v => cases hdoing
  | closed => exact absurd (hopen.symm.trans (h.closed rfl).2) (by simp)

lemma job_eq (h : Serves w t) (hdoing : t.doing.job? = some j) :
    w.job = some j ∧ t.channel = [] := by
  have hjobs := h.jobs
  rw [WorkerThread.jobs, hdoing] at hjobs
  cases hjob : w.job with
  | none =>
      rw [hjob] at hjobs
      cases hjobs
  | some i =>
      rw [hjob] at hjobs
      obtain ⟨rfl, hchannel⟩ := List.cons.inj hjobs
      exact ⟨rfl, hchannel⟩

lemma listening (w : Worker) : Serves w (send {} w.job) where
  jobs := rfl
  closed h := by cases h

end WorkerThread.Serves

namespace Crew

/-- Each worker has a thread that serves it, and there are no other threads. -/
def Manned (p : Pool) (threads : Nat → Option WorkerThread) : Prop :=
  ∀ id, Option.Rel WorkerThread.Serves (p.worker? id) (threads id)

variable {p : Pool} {threads : Nat → Option WorkerThread} {c : Crew}

lemma Manned.exists_worker (h : Manned p threads) {id : Nat} {t : WorkerThread}
    (ht : threads id = some t) : ∃ w, p.worker? id = some w ∧ t.Serves w := by
  have hrel := h id
  rw [ht] at hrel
  cases hw : p.worker? id with
  | none =>
      rw [hw] at hrel
      cases hrel
  | some w =>
      rw [hw] at hrel
      cases hrel with
      | some hserves => exact ⟨w, rfl, hserves⟩

lemma Manned.exists_thread (h : Manned p threads) {id : Nat} {w : Worker}
    (hw : p.worker? id = some w) : ∃ t, threads id = some t ∧ t.Serves w := by
  have hrel := h id
  rw [hw] at hrel
  cases ht : threads id with
  | none =>
      rw [ht] at hrel
      cases hrel
  | some t =>
      rw [ht] at hrel
      cases hrel with
      | some hserves => exact ⟨t, rfl, hserves⟩

lemma manned_opening (p : Pool) (hidle : ∀ w ∈ p.workers, w.job = none) :
    Manned p (opening p).threads := by
  intro id
  show Option.Rel _ _ ((p.worker? id).map fun _ => ({} : WorkerThread))
  cases hw : p.worker? id with
  | none => exact .none
  | some w =>
      refine .some ⟨?_, fun hclosed => by cases hclosed⟩
      rw [hidle w (Pool.mem_of_worker? hw).1]
      rfl

lemma Manned.update (h : Manned p threads) {id : Nat} {t t' : WorkerThread}
    (ht : threads id = some t)
    (hserves : ∀ w, p.worker? id = some w → t.Serves w → t'.Serves w) :
    Manned p (Function.update threads id (some t')) := by
  obtain ⟨w, hw, hold⟩ := h.exists_worker ht
  intro id'
  rw [Function.update_apply]
  split_ifs with hid
  · rw [hid, hw]
    exact .some (hserves w hw hold)
  · exact h id'

/-- A free worker's thread hears of the task. -/
lemma Manned.submit (h : Manned p threads) (hstaffed : p.Staffed) {task : Task} {p' : Pool}
    {ticket : Ticket} (hsubmit : p.submit task = .ok (p', ticket)) :
    Manned p' (sendTo threads p.freeWorker? ⟨ticket, task⟩) := by
  obtain ⟨-, ⟨w, hfree, rfl⟩ | ⟨hfree, rfl⟩⟩ := Pool.submit_cases hsubmit
  · -- The free worker's thread listens to an empty channel, so the task is all that it gets.
    have hw := Pool.worker?_of_mem hstaffed.nodup_ids (List.mem_of_find?_eq_some hfree)
    obtain ⟨t, ht, hserves⟩ := h.exists_thread hw
    obtain rfl := hserves.of_free (List.find?_some hfree)
    intro id
    rw [Pool.worker?_updateWorker (·.take ⟨ticket, task⟩) (fun _ => rfl), hfree, sendTo,
      Function.update_apply]
    split_ifs with hid
    · rw [hid, ht]
      show Option.Rel _ ((p.worker? w.id).map _) _
      rw [hw]
      exact .some (.listening (w.take ⟨ticket, task⟩))
    · exact h id
  · rw [hfree]
    exact h

variable {w : Worker} {j : Job}

lemma Manned.report (h : Manned p threads) (hw : p.worker? w.id = some w) (hjob : w.job = some j)
    (outcome : TaskReport) : Manned (p.report w.id outcome)
      (Function.update threads w.id (some (WorkerThread.send {} (p.following? w.id)))) := by
  intro id
  rw [Pool.worker?_report hw hjob, Function.update_apply]
  split_ifs with hid
  · exact .some (.listening { w with job := p.following? w.id })
  · exact h id

lemma Manned.crash (h : Manned c.pool c.threads) (hstaffed : c.pool.Staffed)
    (hw : c.pool.worker? w.id = some w) (message : Option String) :
    Manned (c.pool.crash w.id message) (c.threadsWithout w.id) := by
  intro id
  rw [Pool.worker?_crash hstaffed.id_lt hw, threadsWithout, hw, Option.isNone_some, Bool.or_false]
  by_cases hshut : c.pool.isShuttingDown = true
  · rw [if_pos hshut, if_neg (by simp [hshut]), Function.update_apply]
    split_ifs
    · exact .none
    · exact h id
  · rw [if_neg hshut, Function.update_apply, Function.update_apply]
    by_cases hid : id = c.pool.nextWorker
    · rw [if_pos ⟨by simpa using hshut, hid⟩, if_pos hid]
      exact .some (.listening { id := c.pool.nextWorker, job := c.pool.following? w.id })
    · rw [if_neg (fun hnew => hid hnew.2), if_neg hid]
      split_ifs
      · exact .none
      · exact h id

lemma Manned.beginShutdown (h : Manned p threads) : Manned p.beginShutdown threads := by
  intro id
  rw [Pool.worker?_beginShutdown]
  have hrel := h id
  cases hw : p.worker? id with
  | none =>
      rw [hw] at hrel
      exact hrel
  | some w =>
      obtain ⟨t, ht, hserves⟩ := h.exists_thread hw
      rw [ht]
      exact .some ⟨hserves.jobs, fun hclosed => ⟨(hserves.closed hclosed).1, rfl⟩⟩

end Crew
end Rebuild
