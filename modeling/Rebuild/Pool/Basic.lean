import Rebuild.Error
import Rebuild.Pool.Task

/-!
# The pool of workers

A pool keeps a fixed number of workers and a bounded queue.  Everything that happens to it is one of
five steps, and each is a function on the pool:

* `Pool.submit` takes a task, and gives it to the first idle worker or queues it;
* `Pool.report` takes the report of a worker, which goes on with the next task of the queue;
* `Pool.crash` takes the end of a worker: its task fails, and a new worker takes its place;
* `Pool.beginShutdown` turns away the queue and closes the workers;
* `Pool.retire` lets closed workers go that have nothing to do.

A task that was accepted is known by its ticket, the number of tasks accepted before it.  What was
answered to each ticket stays in `Pool.answers`.
-/

namespace Rebuild

/-- The number of an accepted task. -/
abbrev Ticket := Nat

/-- What is answered to an accepted task. -/
abbrev Outcome := Except BuildError TaskReport

/-- A task that was accepted. -/
structure Job where
  ticket : Ticket
  task : Task
  deriving DecidableEq, Repr

/-- A worker. -/
structure Worker where
  id : Nat
  /-- What it works on; an idle worker has nothing. -/
  job : Option Job := none
  /-- It can be given tasks. -/
  isOpen : Bool := true
  deriving DecidableEq, Repr

/-- Workers and the tasks that wait for them. -/
structure Pool where
  /-- How many workers there should be. -/
  size : Nat
  /-- How many tasks may wait. -/
  capacity : Nat
  /-- The workers, by increasing number. -/
  workers : List Worker
  /-- The tasks that wait, the oldest first. -/
  queue : List Job := []
  isShuttingDown : Bool := false
  /-- The number of the next worker. -/
  nextWorker : Nat
  /-- The ticket of the next accepted task. -/
  nextTicket : Ticket := 0
  completed : Nat := 0
  failed : Nat := 0
  respawned : Nat := 0
  /-- The answers so far, the latest first. -/
  answers : List (Ticket × Outcome) := []

/-- The numbers of a pool. -/
structure PoolStats where
  size : Nat
  idle : Nat
  busy : Nat
  queued : Nat
  completed : Nat
  failed : Nat
  respawned : Nat
  deriving DecidableEq, Repr

namespace Worker

/-- It works on nothing. -/
def isIdle (w : Worker) : Bool := w.job.isNone

/-- It works on nothing and can be given a task. -/
def isFree (w : Worker) : Bool := w.isIdle && w.isOpen

/-- The worker with a task. -/
def take (w : Worker) (job : Job) : Worker := { w with job := some job }

end Worker

namespace Pool

/-- A pool of idle workers. -/
def start (size capacity : Nat) : Except BuildError Pool :=
  if size = 0 then .error (.configuration .emptyPool)
  else if capacity = 0 then .error (.configuration .emptyQueue)
  else .ok {
    size, capacity
    workers := (List.range size).map fun id => { id }
    nextWorker := size }

/-! ## Asking -/

/-- The first worker that can be given a task. -/
def freeWorker? (p : Pool) : Option Worker := p.workers.find? Worker.isFree

/-- The worker of a number. -/
def worker? (p : Pool) (id : Nat) : Option Worker := p.workers.find? (·.id == id)

/-- The answer to a ticket. -/
def answer? (p : Pool) (ticket : Ticket) : Option Outcome := p.answers.lookup ticket

/-- The numbers of the pool. -/
def stats (p : Pool) : PoolStats :=
  let busy := p.workers.countP fun w => !w.isIdle
  { size := p.workers.length
    idle := p.workers.length - busy
    busy
    queued := p.queue.length
    completed := p.completed
    failed := p.failed
    respawned := p.respawned }

/-- The pool takes tasks and has all its workers. -/
def isHealthy (p : Pool) : Bool := !p.isShuttingDown && p.workers.length == p.size

/-! ## Steps -/

/-- The pool with the worker of a number changed. -/
def updateWorker (p : Pool) (id : Nat) (f : Worker → Worker) : Pool :=
  { p with workers := p.workers.map fun w => if w.id = id then f w else w }

/-- The pool with an answer given. -/
def answer (p : Pool) (ticket : Ticket) (outcome : Outcome) : Pool :=
  { p with answers := (ticket, outcome) :: p.answers }

/-- The pool with a task accepted, or the reason why it is not. -/
def submit (p : Pool) (task : Task) : Except BuildError (Pool × Ticket) :=
  if p.isShuttingDown then .error .poolShuttingDown
  else
    let job : Job := ⟨p.nextTicket, task⟩
    let accepted := { p with nextTicket := p.nextTicket + 1 }
    match p.freeWorker? with
    | some w => .ok (accepted.updateWorker w.id (·.take job), p.nextTicket)
    | none =>
      if p.queue.length < p.capacity then
        .ok ({ accepted with queue := p.queue ++ [job] }, p.nextTicket)
      else .error (.queueOverflow p.capacity)

/-- The worker of a number goes on with the oldest task of the queue. -/
def takeNext (p : Pool) (id : Nat) : Pool :=
  if p.isShuttingDown then p
  else
    match p.queue with
    | [] => p
    | job :: rest => updateWorker { p with queue := rest } id (·.take job)

/-- A worker has done its task. -/
def report (p : Pool) (id : Nat) (outcome : TaskReport) : Pool :=
  match p.worker? id with
  | none => p
  | some w =>
    let told : Pool := match w.job with
      | some job => p.answer job.ticket (.ok outcome)
      | none => p
    let idle := told.updateWorker id fun w => { w with job := none }
    takeNext { idle with completed := p.completed + 1 } id

/-- What is said about a worker that broke down. -/
def crashMessage : Option String → String
  | some message => "worker panicked: " ++ message
  | none => "worker panicked"

/-- A worker broke down. -/
def crash (p : Pool) (id : Nat) (message : Option String) : Pool :=
  match p.worker? id with
  | none => p
  | some w =>
    let left := { p with workers := p.workers.filter fun w => !(w.id == id) }
    let told : Pool := match w.job with
      | some job =>
        let fault := BuildError.workerFault id job.task.id (crashMessage message)
        { left.answer job.ticket (.error fault) with failed := p.failed + 1 }
      | none => left
    if p.isShuttingDown then told
    else
      let respawned : Pool := { told with
        workers := told.workers ++ [{ id := p.nextWorker }]
        nextWorker := p.nextWorker + 1
        respawned := p.respawned + 1 }
      respawned.takeNext p.nextWorker

/-- The pool turns away its queue and takes no more tasks. -/
def beginShutdown (p : Pool) : Pool :=
  { p with
    isShuttingDown := true
    queue := []
    workers := p.workers.map fun w => { w with isOpen := false }
    answers := (p.queue.map fun job => (job.ticket, .error .poolShuttingDown)).reverse ++ p.answers }

/-- The closed workers that have nothing to do are gone. -/
def retire (p : Pool) : Pool :=
  { p with workers := p.workers.filter fun w => w.isOpen || !w.isIdle }

/-! ## Work -/

/-- A worker has come to a verdict on its task. -/
def conclude (p : Pool) (id : Nat) (taskId : String) : Verdict → Pool
  | .compiled output dependencies => p.report id (.ofCompiled taskId output dependencies)
  | .refused message => p.report id (.ofRefused taskId message)
  | .crashed message => p.crash id message

/-- What the first worker says whose task has a verdict by now. -/
def ready? (p : Pool) (verdict? : Task → Option Verdict) : Option (Nat × String × Verdict) :=
  p.workers.findSome? fun w =>
    w.job.bind fun job => (verdict? job.task).map fun v => (w.id, job.task.id, v)

/-- The pool after the first worker whose task has a verdict came to it, if there is one. -/
def advance? (p : Pool) (verdict? : Task → Option Verdict) : Option Pool :=
  (p.ready? verdict?).map fun (id, taskId, v) => p.conclude id taskId v

/-- How many tasks are accepted and not answered. -/
def load (p : Pool) : Nat := p.queue.length + p.workers.countP fun w => !w.isIdle

/-- The pool after at most so many verdicts. -/
def advance (verdict? : Task → Option Verdict) : Nat → Pool → Pool
  | 0, p => p
  | n + 1, p =>
    match p.advance? verdict? with
    | some p => advance verdict? n p
    | none => p

/-- The pool when no task that has a verdict is left. -/
def settle (p : Pool) (verdict? : Task → Option Verdict) : Pool :=
  p.advance verdict? p.load

end Pool
end Rebuild
