import Rebuild.Proofs.Pool.Handing

/-!
# Flights through a pool that others use

While tasks of a flight are under way, other callers may submit tasks of their own, threads take them
up and end in any order, workers break down, and the pool may shut down.

* **Pools.**  `Crew.Onward` is what a step of a pool leaves as it was: what was accepted stays so,
  and so does every answer.
* **Steps.**  `Underway.Step` is a step of the pool or of the flight, which frees its oldest slot only
  if the outcomes are to come in order.  An `Underway` remembers what the pool said to each
  submission.
* **Invariant.**  `Underway.Good`: what was submitted is what has outcomes and what has slots, and
  each outcome is that of its own submission.
* **The end.**  `Good.unanswered_le` bounds what is accepted and not answered, at any moment, and
  `Good.delivered` says whose outcomes there are at the end.
-/

namespace Rebuild

/-! ## Submissions -/

/-- A task that was submitted, and what the pool said: a ticket, or why it does not take the task. -/
structure Submission where
  task : Task
  reply : Except BuildError Ticket

/-- The ticket of a submission that was accepted. -/
def Submission.ticket? (x : Submission) : Option Ticket := x.reply.toOption

namespace Crew

variable {c c' : Crew} {w : Worker} {j : Job} {v : Verdict} {ticket : Ticket} {outcome : Outcome}
  {x : Submission}

/-- What has become of a submission. -/
def outcome? (c : Crew) (x : Submission) : Option Outcome :=
  match x.reply with
  | .ok ticket => c.pool.answer? ticket
  | .error e => some (.error e)

/-- The submission was accepted as a task of its own, or there was no room for it or no pool to take
it. -/
inductive Replied (c : Crew) : Submission → Prop where
  | accepted {j : Job} (h : j ∈ c.accepted) : Replied c ⟨j.task, .ok j.ticket⟩
  | refused {task : Task} {e : BuildError} (h : e = .queueOverflow c.pool.capacity
      ∨ e = .poolShuttingDown ∧ c.pool.isShuttingDown = true) : Replied c ⟨task, .error e⟩

/-- What comes of a submission. -/
inductive Yields (c : Crew) : Submission → Outcome → Prop where
  /-- A compiler said this of the very task that was accepted, or broke down over it. -/
  | judged {d : Judgement} (h : d.job ∈ c.accepted) (hsaid : d ∈ c.said) :
      Yields c ⟨d.job.task, .ok d.job.ticket⟩ d.outcome
  /-- It was accepted, and still in the queue when the pool began to shut down. -/
  | turnedAway {j : Job} (h : j ∈ c.accepted) (hturned : j ∈ c.turnedAway) :
      Yields c ⟨j.task, .ok j.ticket⟩ (.error .poolShuttingDown)
  /-- It was not accepted. -/
  | refused {task : Task} {e : BuildError} (h : e = .queueOverflow c.pool.capacity
      ∨ e = .poolShuttingDown ∧ c.pool.isShuttingDown = true) :
      Yields c ⟨task, .error e⟩ (.error e)

/-! ## What a step of a pool leaves -/

/-- What was accepted and answered stays so, and the pool as it was made. -/
structure Onward (c c' : Crew) : Prop where
  accepted : c.accepted ⊆ c'.accepted
  answers : c.pool.answers <:+ c'.pool.answers
  capacity : c'.pool.capacity = c.pool.capacity
  isShuttingDown : c.pool.isShuttingDown = true → c'.pool.isShuttingDown = true

/-- Whoever tells the pool ends the task that is noted under its worker. -/
lemma Good.of_telling (h : c.Good) {id : Nat} {channel : List Job}
    (ht : c.threads id = some ⟨channel, .telling j v⟩) :
    c.pool.Concluded ⟨id, j, v⟩ (c.pool.conclude id j.task.id v)
      ∧ (c.pool.conclude id j.task.id v).capacity = c.pool.capacity
      ∧ (c.pool.conclude id j.task.id v).isShuttingDown = c.pool.isShuttingDown := by
  obtain ⟨w, hw, hserves⟩ := h.manned.exists_worker ht
  obtain ⟨hjob, -⟩ := hserves.job_eq (j := j) rfl
  obtain ⟨hcapacity, hshut, -⟩ := Pool.conclude_respawned (d := ⟨id, j, v⟩) hw
  exact ⟨Pool.SoundBut.conclude h.sound (d := ⟨id, j, v⟩) hw hjob, hcapacity, hshut⟩

lemma Good.onward (h : c.Good) (hstep : Step c c') : c.Onward c' := by
  cases hstep with
  | submit task hsubmit =>
      have hanswers := (Pool.SoundBut.submit h.sound hsubmit).2.2.1
      refine ⟨List.subset_append_left _ _, hanswers ▸ List.suffix_refl _, ?_, ?_⟩
      all_goals obtain ⟨-, ⟨w, -, rfl⟩ | ⟨-, rfl⟩⟩ := Pool.submit_cases hsubmit
      · rfl
      · rfl
      · exact id
      · exact id
  | tell id ht =>
      obtain ⟨hconcluded, hcapacity, hshut⟩ := h.of_telling ht
      exact ⟨List.Subset.refl _, ⟨[_], hconcluded.answers.symm⟩, hcapacity, hshut.trans⟩
  | shutdown => exact ⟨List.Subset.refl _, List.suffix_append _ _, rfl, fun _ => rfl⟩
  | leave id ht =>
      obtain ⟨w, hw, hidle, hshut⟩ := h.of_closed ht
      obtain ⟨-, rfl⟩ := Pool.mem_of_worker? hw
      rw [Pool.crash_idle hshut hw hidle]
      exact ⟨List.Subset.refl _, List.suffix_refl _, rfl, fun hshut => hshut⟩
  | _ => exact ⟨List.Subset.refl _, List.suffix_refl _, rfl, fun hshut => hshut⟩

lemma mem_of_answer? {p : Pool} (h : p.answer? ticket = some outcome) :
    (ticket, outcome) ∈ p.answers := by
  obtain ⟨before, after, hanswers, -⟩ := List.lookup_eq_some_iff.1 h
  rw [hanswers]
  exact List.mem_append_right _ List.mem_cons_self

/-- **What has become of a submission stays so.** -/
lemma Onward.outcome? (h : c.Onward c') (hgood : c'.Good) (hx : c.outcome? x = some outcome) :
    c'.outcome? x = some outcome := by
  obtain ⟨task, reply⟩ := x
  cases reply with
  | error e => exact hx
  | ok ticket => exact hgood.ledger.answer?_eq (h.answers.subset (mem_of_answer? hx))

lemma Onward.replied (h : c.Onward c') (hx : c.Replied x) : c'.Replied x := by
  cases hx with
  | accepted hj => exact .accepted (h.accepted hj)
  | refused he =>
      refine .refused ?_
      rw [h.capacity]
      exact he.imp_right fun hshut => ⟨hshut.1, h.isShuttingDown hshut.2⟩

/-- The outcome of a submission is its own. -/
lemma Good.yields (h : c.Good) (hreplied : c.Replied x) (hx : c.outcome? x = some outcome) :
    c.Yields x outcome := by
  cases hreplied with
  | refused he =>
      cases hx
      exact .refused he
  | accepted hj =>
      rename_i j
      have hsame : ∀ i ∈ c.accepted, j.ticket = i.ticket → j = i := fun i hi hticket =>
        List.inj_on_of_nodup_map h.nodup_tickets hj hi hticket
      obtain ⟨d, hsaid, hd, heq⟩ | ⟨i, hturned, hi, heq⟩ := h.answered (mem_of_answer? hx)
      · obtain ⟨hticket, rfl⟩ := Prod.mk.inj heq
        obtain rfl := hsame d.job hd hticket
        exact .judged hd hsaid
      · obtain ⟨hticket, rfl⟩ := Prod.mk.inj heq
        obtain rfl := hsame i hi hticket
        exact .turnedAway hi hturned

/-- The crew after the pool took a task. -/
def given (c : Crew) (p : Pool) (j : Job) : Crew :=
  { c with
    pool := p
    threads := sendTo c.threads c.pool.freeWorker? j
    accepted := c.accepted ++ [j] }

end Crew

/-- The slot is that of the submission. -/
inductive Slot.Keeps (c : Crew) : Submission → Slot → Prop where
  | waiting {task : Task} {ticket : Ticket} : Keeps c ⟨task, .ok ticket⟩ (.waiting ticket)
  | settled {x : Submission} {outcome : Outcome} (h : c.outcome? x = some outcome) :
      Keeps c x (.settled outcome)

lemma Slot.Keeps.onward {c c' : Crew} {x : Submission} {slot : Slot} (h : Slot.Keeps c x slot)
    (honward : c.Onward c') (hgood : c'.Good) : Slot.Keeps c' x slot := by
  cases h with
  | waiting => exact .waiting
  | settled hx => exact .settled (honward.outcome? hgood hx)

/-! ## Steps -/

namespace Flight

variable {f : Flight} {p : Pool} {task : Task} {ticket : Ticket} {e : BuildError}

lemma submitNext_of_ok (h : f.pool.submit task = .ok (p, ticket)) (rest : List Task) :
    f.submitNext task rest
      = { f with pool := p, remaining := rest, slots := f.slots ++ [.waiting ticket] } := by
  rw [submitNext, h]

lemma submitNext_of_error (h : f.pool.submit task = .error e) (rest : List Task) :
    f.submitNext task rest
      = { f with remaining := rest, slots := f.slots ++ [.settled (.error e)] } := by
  rw [submitNext, h]

end Flight

/-- A flight through a pool with its threads, which others may use too. -/
structure Underway where
  crew : Crew
  flight : Flight
  /-- What was submitted for the flight, in its order. -/
  submitted : List Submission := []

namespace Underway

/-- The pool has gone on. -/
def withCrew (s : Underway) (c : Crew) : Underway :=
  { s with crew := c, flight := { s.flight with pool := c.pool } }

/-- What can happen to a flight. -/
inductive Step : Underway → Underway → Prop where
  /-- Another task is submitted, a thread does something, or the pool shuts down. -/
  | others {s : Underway} {c : Crew} (h : Crew.Step s.crew c) : Step s (s.withCrew c)
  /-- The pool takes the oldest task of the flight. -/
  | accept {s : Underway} {task : Task} {rest : List Task} {p : Pool} {ticket : Ticket}
      (hrest : s.flight.remaining = task :: rest) (hslot : s.flight.slots.length < s.flight.limit)
      (h : s.crew.pool.submit task = .ok (p, ticket)) :
      Step s {
        crew := s.crew.given p ⟨ticket, task⟩
        flight := s.flight.submitNext task rest
        submitted := s.submitted ++ [⟨task, .ok ticket⟩] }
  /-- The pool does not take it. -/
  | refuse {s : Underway} {task : Task} {rest : List Task} {e : BuildError}
      (hrest : s.flight.remaining = task :: rest) (hslot : s.flight.slots.length < s.flight.limit)
      (h : s.crew.pool.submit task = .error e) :
      Step s { s with
        flight := s.flight.submitNext task rest
        submitted := s.submitted ++ [⟨task, .error e⟩] }
  /-- An answer of the pool is noted. -/
  | note {s : Underway} {before after : List Slot} {ticket : Ticket} {outcome : Outcome}
      (hslots : s.flight.slots = before ++ .waiting ticket :: after)
      (hanswer : s.flight.pool.answer? ticket = some outcome) :
      Step s { s with flight := { s.flight with slots := before ++ .settled outcome :: after } }
  /-- A slot is freed; in order, only the oldest one can be. -/
  | free {s : Underway} {before after : List Slot} {outcome : Outcome}
      (hslots : s.flight.slots = before ++ .settled outcome :: after)
      (hfirst : s.flight.ordered = true → before = []) :
      Step s { s with flight := { s.flight with
        slots := before ++ after, collected := outcome :: s.flight.collected } }

/-- Any number of steps. -/
abbrev Steps : Underway → Underway → Prop := Relation.ReflTransGen Step

/-- A flight before its first step. -/
def opening (c : Crew) (start : Flight) : Underway where
  crew := c
  flight := { start with pool := c.pool }

/-- How many tasks of the flight are accepted and not answered. -/
def unanswered (s : Underway) : Nat := s.submitted.countP fun x => (s.crew.outcome? x).isNone

/-! ## What holds of a flight -/

/-- What holds at any point of a flight that began as `start`. -/
structure Good (start : Flight) (s : Underway) : Prop where
  crew : s.crew.Good
  pool : s.flight.pool = s.crew.pool
  limit : s.flight.limit = start.limit
  ordered : s.flight.ordered = start.ordered
  within : s.flight.slots.length ≤ start.limit
  tasks : start.remaining = s.submitted.map Submission.task ++ s.flight.remaining
  replies : ∀ x ∈ s.submitted, s.crew.Replied x
  tickets : (s.submitted.filterMap Submission.ticket?).Pairwise (· < ·)
  /-- What was submitted has an outcome that was collected, or a slot. -/
  parts : ∃ finished under, s.submitted.Perm (finished ++ under)
    ∧ (start.ordered = true → s.submitted = finished ++ under)
    ∧ List.Forall₂ (fun x outcome => s.crew.outcome? x = some outcome) finished s.flight.outcomes
    ∧ List.Forall₂ (Slot.Keeps s.crew) under s.flight.slots

variable {start : Flight} {s s' : Underway} {task : Task} {rest : List Task} {c : Crew}

lemma Good.withCrew (h : s.Good start) (hstep : Crew.Step s.crew c) : (s.withCrew c).Good start := by
  obtain ⟨finished, under, hperm, hordered, hfinished, hunder⟩ := h.parts
  have hgood := h.crew.step hstep
  have honward := h.crew.onward hstep
  exact ⟨hgood, rfl, h.limit, h.ordered, h.within, h.tasks,
    fun x hx => honward.replied (h.replies x hx), h.tickets, finished, under, hperm, hordered,
    hfinished.imp fun x outcome => honward.outcome? hgood,
    hunder.imp fun x slot hslot => hslot.onward honward hgood⟩

/-- All tickets of the flight were given out. -/
lemma Good.lt_nextTicket (h : s.Good start) {ticket : Ticket}
    (hticket : ticket ∈ s.submitted.filterMap Submission.ticket?) :
    ticket < s.crew.pool.nextTicket := by
  obtain ⟨x, hx, hsome⟩ := List.mem_filterMap.1 hticket
  cases h.replies x hx with
  | accepted hj =>
      cases hsome
      rw [← List.mem_range, ← h.crew.ledger.tickets]
      exact List.mem_map_of_mem hj
  | refused _ => cases hsome

/-- What is submitted takes a slot behind all others, whatever the pool says. -/
lemma Good.submit {c : Crew} {x : Submission} {slot : Slot} (h : s.Good start)
    (hrest : s.flight.remaining = x.task :: rest)
    (hslot : s.flight.slots.length < s.flight.limit) (hgood : c.Good)
    (honward : s.crew.Onward c) (hreplied : c.Replied x)
    (hticket : ∀ ticket, x.ticket? = some ticket → ticket = s.crew.pool.nextTicket)
    (hkeeps : Slot.Keeps c x slot) :
    Good start {
      crew := c
      flight := { s.flight with
        pool := c.pool, remaining := rest, slots := s.flight.slots ++ [slot] }
      submitted := s.submitted ++ [x] } := by
  obtain ⟨finished, under, hperm, hordered, hfinished, hunder⟩ := h.parts
  have hlast : finished ++ (under ++ [x]) = (finished ++ under) ++ [x] :=
    (List.append_assoc _ _ _).symm
  refine ⟨hgood, rfl, h.limit, h.ordered, ?_, ?_, fun y hy => ?_, ?_, finished, under ++ [x], ?_,
    fun hstart => ?_, hfinished.imp fun y outcome => honward.outcome? hgood,
    List.rel_append (hunder.imp fun y slot hy => hy.onward honward hgood) (.cons hkeeps .nil)⟩
  · show (s.flight.slots ++ [slot]).length ≤ _
    rw [List.length_append, List.length_singleton, ← h.limit]
    exact hslot
  · show start.remaining = (s.submitted ++ [x]).map _ ++ rest
    rw [h.tasks, hrest, List.map_append, List.append_assoc]
    rfl
  · rcases List.mem_append.1 hy with hy | hy
    · exact honward.replied (h.replies y hy)
    · exact List.mem_singleton.1 hy ▸ hreplied
  · show ((s.submitted ++ [x]).filterMap _).Pairwise _
    rw [List.filterMap_append, List.pairwise_append]
    refine ⟨h.tickets, ?_, fun earlier hearlier ticket hmem => ?_⟩
    · cases hsome : x.ticket? <;> simp [hsome]
    · obtain ⟨y, hy, hsome⟩ := List.mem_filterMap.1 hmem
      rw [hticket ticket (List.mem_singleton.1 hy ▸ hsome)]
      exact h.lt_nextTicket hearlier
  · show (s.submitted ++ [x]).Perm _
    rw [hlast]
    exact hperm.append_right _
  · show s.submitted ++ [x] = _
    rw [hlast, hordered hstart]

lemma Good.accept (h : s.Good start) {p : Pool} {ticket : Ticket}
    (hrest : s.flight.remaining = task :: rest) (hslot : s.flight.slots.length < s.flight.limit)
    (hsubmit : s.crew.pool.submit task = .ok (p, ticket)) :
    Good start {
      crew := s.crew.given p ⟨ticket, task⟩
      flight := s.flight.submitNext task rest
      submitted := s.submitted ++ [⟨task, .ok ticket⟩] } := by
  have hstep : Crew.Step s.crew (s.crew.given p ⟨ticket, task⟩) := .submit task hsubmit
  rw [Flight.submitNext_of_ok (h.pool ▸ hsubmit)]
  refine h.submit (x := ⟨task, .ok ticket⟩) hrest hslot (h.crew.step hstep) (h.crew.onward hstep)
    (.accepted (j := ⟨ticket, task⟩) (List.mem_append_right _ List.mem_cons_self))
    (fun k hk => ?_) .waiting
  cases hk
  exact (Pool.submit_cases hsubmit).1

lemma Good.refuse (h : s.Good start) {e : BuildError} (hrest : s.flight.remaining = task :: rest)
    (hslot : s.flight.slots.length < s.flight.limit)
    (hsubmit : s.crew.pool.submit task = .error e) :
    Good start { s with
      flight := s.flight.submitNext task rest
      submitted := s.submitted ++ [⟨task, .error e⟩] } := by
  rw [Flight.submitNext_of_error (h.pool ▸ hsubmit), h.pool]
  have hsame : s.crew.Onward s.crew :=
    ⟨List.Subset.refl _, List.suffix_refl _, rfl, fun hshut => hshut⟩
  exact h.submit (x := ⟨task, .error e⟩) hrest hslot h.crew hsame
    (.refused (Pool.submit_error hsubmit)) (fun k hk => by cases hk) (.settled rfl)

lemma Good.note (h : s.Good start) {before after : List Slot} {ticket : Ticket} {outcome : Outcome}
    (hslots : s.flight.slots = before ++ .waiting ticket :: after)
    (hanswer : s.flight.pool.answer? ticket = some outcome) :
    Good start
      { s with flight := { s.flight with slots := before ++ .settled outcome :: after } } := by
  obtain ⟨finished, under, hperm, hordered, hfinished, hunder⟩ := h.parts
  rw [hslots] at hunder
  obtain ⟨first, x, last, rfl, hfirst, hslot, hlast⟩ := Flight.exists_split_of_forall₂ hunder
  rw [h.pool] at hanswer
  have hkeeps : Slot.Keeps s.crew x (.settled outcome) := by
    cases hslot with
    | waiting => exact .settled hanswer
  refine ⟨h.crew, h.pool, h.limit, h.ordered, ?_, h.tasks, h.replies, h.tickets, finished, _, hperm,
    hordered, hfinished, List.rel_append hfirst (.cons hkeeps hlast)⟩
  have hwithin := h.within
  rw [hslots] at hwithin
  simpa using hwithin

lemma Good.free (h : s.Good start) {before after : List Slot} {outcome : Outcome}
    (hslots : s.flight.slots = before ++ .settled outcome :: after)
    (hfirst : s.flight.ordered = true → before = []) :
    Good start { s with flight := { s.flight with
      slots := before ++ after, collected := outcome :: s.flight.collected } } := by
  obtain ⟨finished, under, hperm, hordered, hfinished, hunder⟩ := h.parts
  rw [hslots] at hunder
  obtain ⟨first, x, last, rfl, hbefore, hslot, hafter⟩ := Flight.exists_split_of_forall₂ hunder
  have hx : s.crew.outcome? x = some outcome := by
    cases hslot with
    | settled hx => exact hx
  refine ⟨h.crew, h.pool, h.limit, h.ordered, ?_, h.tasks, h.replies, h.tickets, finished ++ [x],
    first ++ last, ?_, fun hstart => ?_, ?_, List.rel_append hbefore hafter⟩
  · have hwithin := h.within
    rw [hslots] at hwithin
    simp only [List.length_append, List.length_cons] at hwithin ⊢
    omega
  · refine hperm.trans ?_
    rw [List.append_assoc]
    exact List.perm_middle.append_left finished
  · -- In order the slot is the first one, and so is its submission among those without an outcome.
    obtain rfl := hfirst (h.ordered.trans hstart)
    cases hbefore
    rw [List.append_assoc]
    exact hordered hstart
  · rw [Flight.outcomes, List.reverse_cons]
    exact List.rel_append hfinished (.cons hx .nil)

/-- **Every step keeps what holds of a flight.** -/
lemma Good.step (h : s.Good start) (hstep : Step s s') : s'.Good start := by
  cases hstep with
  | others hcrew => exact h.withCrew hcrew
  | accept hrest hslot hsubmit => exact h.accept hrest hslot hsubmit
  | refuse hrest hslot hsubmit => exact h.refuse hrest hslot hsubmit
  | note hslots hanswer => exact h.note hslots hanswer
  | free hslots hfirst => exact h.free hslots hfirst

lemma Good.steps (h : s.Good start) (hsteps : Steps s s') : s'.Good start := by
  induction hsteps with
  | refl => exact h
  | tail _ hstep ih => exact ih.step hstep

lemma good_opening (h : c.Good) (hslots : start.slots = []) (hcollected : start.collected = []) :
    (opening c start).Good start where
  crew := h
  pool := rfl
  limit := rfl
  ordered := rfl
  within := by
    show start.slots.length ≤ _
    rw [hslots]
    exact Nat.zero_le _
  tasks := rfl
  replies x hx := by cases hx
  tickets := .nil
  parts := by
    refine ⟨[], [], .nil, fun _ => rfl, ?_, ?_⟩
    · show List.Forall₂ _ [] start.collected.reverse
      rw [hcollected]
      exact .nil
    · show List.Forall₂ _ [] start.slots
      rw [hslots]
      exact .nil

/-! ## Outcomes -/

lemma map_eq_of_forall₂ {α β : Type} {f : α → Option β} {xs : List α} {ys : List β}
    (h : List.Forall₂ (fun x y => f x = some y) xs ys) : xs.map f = ys.map some := by
  rw [← List.forall₂_eq_eq_eq, List.forall₂_map_left_iff, List.forall₂_map_right_iff]
  exact h

/-- **At no moment** are more tasks accepted and not answered than there are slots. -/
lemma Good.unanswered_le (h : s.Good start) : s.unanswered ≤ start.limit := by
  obtain ⟨finished, under, hperm, -, hfinished, hunder⟩ := h.parts
  have hdone : finished.countP (fun x => (s.crew.outcome? x).isNone) = 0 := by
    show finished.countP (Option.isNone ∘ s.crew.outcome?) = 0
    rw [← List.countP_map, map_eq_of_forall₂ hfinished, List.countP_map, List.countP_eq_zero]
    intro outcome _ hnone
    cases hnone
  rw [unanswered, hperm.countP_eq, List.countP_append, hdone, Nat.zero_add]
  refine Nat.le_trans List.countP_le_length ?_
  rw [hunder.length_eq]
  exact h.within

/-- The outcomes of a flight are those of its tasks. -/
structure Delivered (ordered : Bool) (tasks : List Task) (s : Underway) : Prop where
  length : s.flight.outcomes.length = tasks.length
  /-- Each task was submitted once, in order, and accepted under a ticket of its own if at all. -/
  tasks : s.submitted.map Submission.task = tasks
  tickets : (s.submitted.filterMap Submission.ticket?).Nodup
  /-- The outcomes are those of the submissions, and in their places if they are to be in order. -/
  own : ∃ own, List.Forall₂ s.crew.Yields s.submitted own
    ∧ s.submitted.map s.crew.outcome? = own.map some
    ∧ s.flight.outcomes.Perm own ∧ (ordered = true → s.flight.outcomes = own)

/-- Where everything has a value, the values are in the places of what they are of. -/
lemma forall₂_filterMap {α β : Type} {f : α → Option β} {R : α → β → Prop} {xs : List α}
    (h : ∀ x ∈ xs, ∃ y, f x = some y ∧ R x y) :
    List.Forall₂ R xs (xs.filterMap f) ∧ xs.map f = (xs.filterMap f).map some := by
  induction xs with
  | nil => exact ⟨.nil, rfl⟩
  | cons x xs ih =>
      obtain ⟨y, hy, hR⟩ := h x List.mem_cons_self
      obtain ⟨hrest, hmap⟩ := ih fun x hx => h x (List.mem_cons_of_mem _ hx)
      rw [List.filterMap_cons_some hy, List.map_cons, List.map_cons, hy, hmap]
      exact ⟨.cons hR hrest, rfl⟩

/-- **At the end** each task has its own outcome. -/
lemma Good.delivered (h : s.Good start) (hended : s.flight.Ended) :
    s.Delivered start.ordered start.remaining := by
  obtain ⟨finished, under, hperm, hordered, hfinished, hunder⟩ := h.parts
  rw [hended.2] at hunder
  cases hunder
  rw [List.append_nil] at hperm hordered
  have hmap := map_eq_of_forall₂ hfinished
  have houtcomes : s.flight.outcomes = finished.filterMap s.crew.outcome? := by
    have hall := congrArg (List.filterMap id) hmap
    rw [List.filterMap_map, List.filterMap_map] at hall
    simpa [Function.comp_def] using hall.symm
  have hanswered : ∀ x ∈ s.submitted, ∃ outcome, s.crew.outcome? x = some outcome
      ∧ s.crew.Yields x outcome := by
    intro x hx
    have hmem : s.crew.outcome? x ∈ s.flight.outcomes.map some :=
      hmap ▸ List.mem_map_of_mem (hperm.mem_iff.1 hx)
    obtain ⟨outcome, -, houtcome⟩ := List.mem_map.1 hmem
    exact ⟨outcome, houtcome.symm, h.crew.yields (h.replies x hx) houtcome.symm⟩
  obtain ⟨hyields, hown⟩ := forall₂_filterMap hanswered
  have hall : s.flight.outcomes.Perm (s.submitted.filterMap s.crew.outcome?) := by
    rw [houtcomes]
    exact hperm.symm.filterMap _
  have htasks : s.submitted.map Submission.task = start.remaining := by
    rw [h.tasks, hended.1, List.append_nil]
  refine ⟨?_, htasks, h.tickets.imp Nat.ne_of_lt, _, hyields, hown, hall, fun hstart => ?_⟩
  · rw [hall.length_eq, ← hyields.length_eq, ← htasks, List.length_map]
  · rw [houtcomes, hordered hstart]

end Underway
end Rebuild
