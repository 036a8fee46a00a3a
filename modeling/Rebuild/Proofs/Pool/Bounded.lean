import Rebuild.Proofs.Pool.Orders
import Rebuild.Proofs.Pool.Underway

/-!
# Bounded execution

A list of tasks goes through a pool in one of three ways, whatever else goes on there.

* **Verdicts.**  `Crew.CanConclude`: whoever has a task can bring it to its end by its own steps, so
  nothing has to stay pending (`Crew.Good.exists_drained`).
* **Moves.**  The moves of a flight are steps of it with its threads (`Underway.Good.exists_moves`).
  So it can come to its end from any moment on (`Good.exists_ended`), and the flight that runs by
  itself is one of these runs (`Good.exists_finish`).
* **Endpoint.**  `bounded_execution`.
-/

namespace Rebuild

/-! ## Verdicts -/

namespace Crew

variable {c c' c'' : Crew} {verdict : Task → Verdict} {w : Worker} {j : Job} {v : Verdict}
  {id : Nat} {channel : List Job}

/-- Meanwhile compilers said nothing but these verdicts, and nobody began to shut the pool down. -/
structure Follows (verdict : Task → Verdict) (c c' : Crew) : Prop where
  isShuttingDown : c'.pool.isShuttingDown = c.pool.isShuttingDown
  said : ∀ d ∈ c'.said, d ∈ c.said ∨ d.verdict = verdict d.job.task

lemma Follows.refl (verdict : Task → Verdict) (c : Crew) : c.Follows verdict c :=
  ⟨rfl, fun _ hd => .inl hd⟩

lemma Follows.trans (h : c.Follows verdict c') (h' : c'.Follows verdict c'') :
    c.Follows verdict c'' :=
  ⟨h'.isShuttingDown.trans h.isShuttingDown,
    fun d hd => (h'.said d hd).elim (h.said d) .inr⟩

lemma follows_given {p : Pool} {task : Task} {ticket : Ticket} (verdict : Task → Verdict)
    (hsubmit : c.pool.submit task = .ok (p, ticket)) :
    c.Follows verdict (c.given p ⟨ticket, task⟩) := by
  refine ⟨?_, fun _ hd => .inl hd⟩
  obtain ⟨-, ⟨w, -, rfl⟩ | ⟨-, rfl⟩⟩ := Pool.submit_cases hsubmit
  · rfl
  · rfl

/-- What threads are about to tell the pool are these verdicts. -/
def Heeds (verdict : Task → Verdict) (c : Crew) : Prop :=
  Tells (fun d => d.verdict = verdict d.job.task) c.threads

/-- The worker of a number can end its task: with what its thread is about to tell, or else with the
verdict on the task. -/
def CanConclude (verdict : Task → Verdict) (c : Crew) (id : Nat) (j : Job) : Prop :=
  ∃ c' v, Steps c c' ∧ c'.pool = c.pool.conclude id j.task.id v ∧ c.Follows verdict c'
    ∧ (c.Heeds verdict → v = verdict j.task ∧ c'.Heeds verdict)

lemma Good.canConclude_of_telling (h : c.Good) (verdict : Task → Verdict)
    (ht : c.threads id = some ⟨channel, .telling j v⟩) : c.CanConclude verdict id j := by
  obtain ⟨w, -, hserves⟩ := h.manned.exists_worker ht
  obtain rfl : channel = [] := (hserves.job_eq (j := j) rfl).2
  have hfollows := (h.of_telling ht).2.2
  exact ⟨_, v, .single (.tell id ht), rfl, ⟨hfollows, fun _ hd => .inl hd⟩,
    fun hheeds => ⟨hheeds id _ j v ht rfl, hheeds.after ⟨id, j, v⟩⟩⟩

lemma Good.canConclude_of_compiling (h : c.Good) (verdict : Task → Verdict)
    (ht : c.threads id = some ⟨channel, .compiling j⟩) : c.CanConclude verdict id j := by
  have hjudge := Step.judge id (verdict j.task) ht
  obtain ⟨c', v, hsteps, hpool, hfollows, hheeds⟩ :=
    (h.step hjudge).canConclude_of_telling verdict (Function.update_self ..)
  refine ⟨c', v, .head hjudge hsteps, hpool, Follows.trans ?_ hfollows,
    fun hc => hheeds (hc.telling rfl channel)⟩
  refine ⟨rfl, fun d hd => ?_⟩
  rcases List.mem_append.1 hd with hd | hd
  · exact .inl hd
  · obtain rfl := List.mem_singleton.1 hd
    exact .inr rfl

lemma Good.canConclude_of_listening (h : c.Good) (verdict : Task → Verdict)
    (ht : c.threads id = some ⟨j :: channel, .listening⟩) : c.CanConclude verdict id j := by
  have hreceive := Step.receive id ht
  obtain ⟨c', v, hsteps, hpool, hfollows, hheeds⟩ :=
    (h.step hreceive).canConclude_of_compiling verdict (Function.update_self ..)
  refine ⟨c', v, .head hreceive hsteps, hpool, Follows.trans ?_ hfollows,
    fun hc => hheeds (hc.compiling id channel j)⟩
  exact ⟨rfl, fun _ hd => .inl hd⟩

/-- **Every worker** can end the task that is noted under it. -/
lemma Good.canConclude (h : c.Good) (hw : w ∈ c.pool.workers) (hjob : w.job = some j)
    (verdict : Task → Verdict) : c.CanConclude verdict w.id j := by
  obtain ⟨⟨channel, doing⟩, ht, hserves⟩ :=
    h.manned.exists_thread (Pool.worker?_of_mem h.sound.nodup_ids hw)
  have hjobs : (⟨channel, doing⟩ : WorkerThread).jobs = [j] := by rw [hserves.jobs, hjob]; rfl
  cases doing with
  | listening =>
      obtain rfl : channel = [j] := hjobs
      exact h.canConclude_of_listening verdict ht
  | compiling i =>
      obtain rfl := (List.cons.inj hjobs).1
      exact h.canConclude_of_compiling verdict ht
  | telling i v =>
      obtain rfl := (List.cons.inj hjobs).1
      exact h.canConclude_of_telling verdict ht
  | closed =>
      obtain rfl : channel = [] := (hserves.closed rfl).1
      cases hjobs

/-- Task by task, all that is pending comes to its end. -/
lemma Good.exists_drained {c : Crew} (h : c.Good) (verdict : Task → Verdict) :
    ∃ c', Steps c c' ∧ c.Follows verdict c' ∧ c'.pool.pending = [] := by
  cases hadvance : c.pool.advance? (fun t => some (verdict t)) with
  | none => exact ⟨c, .refl, .refl verdict c, Pool.SoundBut.pending_eq_nil h.sound hadvance⟩
  | some p =>
      obtain ⟨w, hw, j, -, hjob, -, -⟩ := Pool.exists_of_advance? hadvance
      obtain ⟨c', v, hsteps, hpool, hfollows, -⟩ := h.canConclude hw hjob verdict
      have hconcluded := Pool.SoundBut.conclude h.sound (d := ⟨w.id, j, v⟩)
        (Pool.worker?_of_mem h.sound.nodup_ids hw) hjob
      have hless : c'.pool.pending.length < c.pool.pending.length := by
        rw [hpool, hconcluded.pending.length_eq]
        exact Nat.lt_succ_self _
      obtain ⟨c'', hsteps', hfollows', hnone⟩ := (h.steps hsteps).exists_drained verdict
      exact ⟨c'', hsteps.trans hsteps', hfollows.trans hfollows', hnone⟩
termination_by c.pool.pending.length

/-- Where nothing is pending, nothing is told. -/
lemma Good.heeds_of_pending (h : c.Good) (hnone : c.pool.pending = []) : c.Heeds verdict := by
  intro id t j v ht htelling
  obtain ⟨channel, doing⟩ := t
  obtain rfl : doing = .telling j v := htelling
  have hpending := (h.of_telling ht).1.pending
  rw [hnone] at hpending
  cases hpending.symm.eq_nil

end Crew

/-! ## Moves -/

namespace Underway

variable {start : Flight} {s s' : Underway} {verdict : Task → Verdict} {f : Flight}

lemma Steps.of_crew {c : Crew} (h : Crew.Steps s.crew c) (hpool : s.flight.pool = s.crew.pool) :
    Steps s (s.withCrew c) := by
  induction h with
  | refl =>
      have hsame : s.withCrew s.crew = s := by rw [withCrew, ← hpool]
      exact hsame.symm ▸ .refl
  | tail _ hstep ih => exact ih.tail (.others hstep)

/-- A move of the flight is made with its threads, which come to the same verdict. -/
lemma Good.exists_move (h : s.Good start) (hheeds : s.crew.Heeds verdict)
    (hmove : Flight.Move verdict s.flight f) :
    ∃ s', Steps s s' ∧ s'.flight = f ∧ s.crew.Follows verdict s'.crew ∧ s'.crew.Heeds verdict := by
  cases hmove with
  | @submit task rest hrest hslot =>
      cases hsubmit : s.crew.pool.submit task with
      | ok given =>
          exact ⟨_, .single (.accept hrest hslot hsubmit), rfl, Crew.follows_given verdict hsubmit,
            hheeds.sendTo _ _⟩
      | error e =>
          exact ⟨_, .single (.refuse hrest hslot hsubmit), rfl, .refl verdict s.crew, hheeds⟩
  | conclude hw hjob =>
      rw [h.pool] at hw
      obtain ⟨c, v, hsteps, hpool, hfollows, hafter⟩ := h.crew.canConclude hw hjob verdict
      obtain ⟨rfl, hheeds'⟩ := hafter hheeds
      refine ⟨s.withCrew c, .of_crew hsteps h.pool, ?_, hfollows, hheeds'⟩
      rw [Underway.withCrew, hpool, h.pool]
  | note hslots hanswer =>
      exact ⟨_, .single (.note hslots hanswer), rfl, .refl verdict s.crew, hheeds⟩
  | free hslots hfirst =>
      exact ⟨_, .single (.free hslots hfirst), rfl, .refl verdict s.crew, hheeds⟩

lemma Good.exists_moves (h : s.Good start) (hheeds : s.crew.Heeds verdict)
    (hmoves : Flight.Moves verdict s.flight f) :
    ∃ s', Steps s s' ∧ s'.flight = f ∧ s.crew.Follows verdict s'.crew ∧ s'.crew.Heeds verdict := by
  induction hmoves with
  | refl => exact ⟨s, .refl, rfl, .refl verdict s.crew, hheeds⟩
  | tail _ hmove ih =>
      obtain ⟨s₁, hsteps, rfl, hfollows, hheeds₁⟩ := ih
      obtain ⟨s₂, hsteps', hf, hfollows', hheeds₂⟩ := (h.steps hsteps).exists_move hheeds₁ hmove
      exact ⟨s₂, hsteps.trans hsteps', hf, hfollows.trans hfollows', hheeds₂⟩

/-- A full flight with nothing pending has come to its end. -/
lemma Good.ended (h : s.Good start) (hlimit : start.remaining = [] ∨ 0 < start.limit)
    (hfull : s.flight.Full) (hnone : s.flight.pool.pending = []) : s.flight.Ended := by
  have hroom : s.flight.remaining = [] ∨ 0 < s.flight.limit :=
    hlimit.imp (fun hstart => (List.append_eq_nil_iff.1 (h.tasks.symm.trans hstart)).2)
      fun hpos => h.limit ▸ hpos
  refine hfull.ended hroom fun ticket slots hslots hopen => ?_
  -- What the oldest slot waits for was accepted, so it is pending or has its answer.
  obtain ⟨finished, under, hperm, -, -, hunder⟩ := h.parts
  rw [hslots] at hunder
  cases hunder with
  | @cons x _ under _ hslot _ =>
      have hx : x ∈ s.submitted :=
        hperm.mem_iff.2 (List.mem_append_right _ List.mem_cons_self)
      cases hslot with
      | waiting =>
          cases h.replies _ hx with
          | accepted hj =>
              rw [h.pool] at hopen hnone
              have hpending := h.crew.mem_pending hj hopen
              rw [hnone] at hpending
              cases hpending

/-- The flight that runs by itself is one of the runs, where threads come to these verdicts. -/
lemma Good.exists_finish (h : s.Good start) (hlimit : start.remaining = [] ∨ 0 < start.limit)
    (hheeds : s.crew.Heeds verdict) :
    ∃ s', Steps s s' ∧ s'.flight = s.flight.finish (fun t => some (verdict t)) ∧ s'.flight.Ended
      ∧ s.crew.Follows verdict s'.crew := by
  obtain ⟨s', hsteps, hflight, hfollows, -⟩ :=
    h.exists_moves hheeds (Flight.moves_finish verdict s.flight)
  have hsound : s.flight.pool.Sound := h.pool ▸ h.crew.sound
  obtain ⟨hfull, hnone⟩ : (s.flight.finish fun t => some (verdict t)).Full ∧ _ :=
    Flight.finish_left hsound
  rw [← hflight] at hfull hnone
  exact ⟨s', hsteps, hflight, (h.steps hsteps).ended hlimit hfull hnone, hfollows⟩

/-- **From any moment on** a flight can come to its end, with whatever compilers still say. -/
lemma Good.exists_ended (h : s.Good start) (hlimit : start.remaining = [] ∨ 0 < start.limit)
    (verdict : Task → Verdict) :
    ∃ s', Steps s s' ∧ s'.flight.Ended ∧ s.crew.Follows verdict s'.crew := by
  obtain ⟨c, hcrew, hfollows, hnone⟩ := h.crew.exists_drained verdict
  have hsteps : Steps s (s.withCrew c) := .of_crew hcrew h.pool
  have hgood := h.steps hsteps
  have hheeds : (s.withCrew c).crew.Heeds verdict := hgood.crew.heeds_of_pending hnone
  obtain ⟨s', hsteps', -, hended, hfollows'⟩ := hgood.exists_finish hlimit hheeds
  exact ⟨s', hsteps.trans hsteps', hended, hfollows.trans hfollows'⟩

end Underway

/-! ## The ways to run tasks -/

/-- The ways to run a list of tasks. -/
inductive Mode where
  | withLimit (limit : Nat)
  | map (ordered : Bool) (limit : Option Nat)
  | batch

namespace Mode

/-- How many tasks may be accepted and not answered at a time. -/
def limit (p : Pool) (tasks : List Task) : Mode → Nat
  | withLimit limit => max limit 1
  | map _ limit => max (limit.getD p.size) 1
  | batch => tasks.length

/-- Outcomes come in the order of the tasks. -/
def ordered : Mode → Bool
  | withLimit _ => true
  | map ordered _ => ordered
  | batch => false

/-- The flight at its start. -/
def start (m : Mode) (p : Pool) (tasks : List Task) : Flight where
  pool := p
  remaining := tasks
  limit := m.limit p tasks
  ordered := m.ordered

/-- The pool after running all tasks, and their outcomes. -/
def run (m : Mode) (p : Pool) (verdict? : Task → Option Verdict) (tasks : List Task) :
    Pool × List Outcome :=
  match m with
  | withLimit limit => p.executeWithLimit verdict? limit tasks
  | map ordered limit => p.map verdict? ordered limit tasks
  | batch => p.executeBatch verdict? tasks

variable (m : Mode) (p : Pool) (tasks : List Task)

lemma run_eq (verdict? : Task → Option Verdict) :
    m.run p verdict? tasks
      = (((m.start p tasks).finish verdict?).pool, ((m.start p tasks).finish verdict?).outcomes) := by
  cases m <;> rfl

lemma limit_pos : (m.start p tasks).remaining = [] ∨ 0 < (m.start p tasks).limit := by
  cases m with
  | withLimit limit => exact .inr (Nat.le_max_right _ _)
  | map ordered limit => exact .inr (Nat.le_max_right _ _)
  | batch => exact tasks.length.eq_zero_or_pos.imp_left List.eq_nil_of_length_eq_zero

end Mode

namespace Underway

variable {start : Flight} {s : Underway}

/-- What holds at any moment of a run of tasks. -/
structure Bounded (limit : Nat) (ordered : Bool) (tasks : List Task) (s : Underway) : Prop where
  unanswered_le : s.unanswered ≤ limit
  delivered : s.flight.Ended → s.Delivered ordered tasks
  /-- It can go on to its end, whatever compilers have still to say, and without a shutdown. -/
  ends : ∀ verdict, ∃ s', Steps s s' ∧ s'.flight.Ended ∧ s.crew.Follows verdict s'.crew

lemma Good.bounded (h : s.Good start) (hlimit : start.remaining = [] ∨ 0 < start.limit) :
    s.Bounded start.limit start.ordered start.remaining :=
  ⟨h.unanswered_le, h.delivered, h.exists_ended hlimit⟩

/-- **Bounded execution.**  Tasks run through a pool, in whichever way, while others submit tasks,
threads compile, fail and break down in any order, and the pool may shut down.  At no moment are
more of them accepted and not answered than the limit allows.  At the end each has one outcome,
which is its own, and if outcomes come in order it is at the place of the task.  The end can always
be reached; and `Mode.run`, which lets the workers take turns, is one of the runs. -/
theorem bounded_execution {size capacity : Nat} (hsize : 1 ≤ size) (hcapacity : 1 ≤ capacity) :
    ∃ p, Pool.start size capacity = .ok p ∧ ∀ c, Crew.Steps (.opening p) c →
      ∀ (m : Mode) (tasks : List Task),
        (∀ s, Steps (opening c (m.start c.pool tasks)) s →
          s.Bounded (m.limit c.pool tasks) m.ordered tasks)
        ∧ ∀ verdict, c.Heeds verdict → ∃ s, Steps (opening c (m.start c.pool tasks)) s
          ∧ s.flight.Ended
          ∧ m.run c.pool (fun t => some (verdict t)) tasks = (s.crew.pool, s.flight.outcomes) := by
  obtain ⟨p, hp⟩ := Pool.exists_start hsize hcapacity
  refine ⟨p, hp, fun c hsteps m tasks => ?_⟩
  have hgood : (opening c (m.start c.pool tasks)).Good (m.start c.pool tasks) :=
    good_opening ((Crew.good_opening hp).steps hsteps) rfl rfl
  have hlimit := m.limit_pos c.pool tasks
  refine ⟨fun s hs => (hgood.steps hs).bounded hlimit, fun verdict hheeds => ?_⟩
  obtain ⟨s, hs, hflight, hended, -⟩ := hgood.exists_finish hlimit hheeds
  refine ⟨s, hs, hended, ?_⟩
  rw [Mode.run_eq, ← (hgood.steps hs).pool, hflight]
  rfl

/-- Three tasks go through a pool with room for one and one more: a compiler breaks down over the
first, and there is no room for the third, whose error is at its own place nevertheless. -/
theorem bounded_execution_overflow :
    ∃ p s, Pool.start 1 1 = .ok p
      ∧ Steps (opening (.opening p) ((Mode.withLimit 3).start p
        [{ id := "a", path := ⟨"a"⟩, content := "" }, { id := "b", path := ⟨"b"⟩, content := "" },
          { id := "c", path := ⟨"c"⟩, content := "" }])) s
      ∧ s.Delivered true
        [{ id := "a", path := ⟨"a"⟩, content := "" }, { id := "b", path := ⟨"b"⟩, content := "" },
          { id := "c", path := ⟨"c"⟩, content := "" }]
      ∧ s.flight.outcomes = [.error (.workerFault 0 "a" "worker panicked: boom"),
        .ok (.ofCompiled "b" "out" []), .error (.queueOverflow 1)] := by
  obtain ⟨p, hp, hbounded⟩ := bounded_execution (Nat.le_refl 1) (Nat.le_refl 1)
  obtain ⟨hall, hrun⟩ := hbounded _ .refl (.withLimit 3)
    [{ id := "a", path := ⟨"a"⟩, content := "" }, { id := "b", path := ⟨"b"⟩, content := "" },
      { id := "c", path := ⟨"c"⟩, content := "" }]
  cases hp
  obtain ⟨s, hs, hended, heq⟩ := hrun
    (fun t => if t.id = "a" then .crashed (some "boom") else .compiled "out" [])
    (fun id t j v ht htelling => by
      obtain ⟨-, -, rfl⟩ := Option.map_eq_some_iff.1 ht
      cases htelling)
  exact ⟨_, s, rfl, hs, (hall s hs).delivered hended, (congrArg Prod.snd heq).symm.trans rfl⟩

end Underway
end Rebuild
