import Mathlib.Data.List.Perm.Subperm
import Rebuild.Proofs.Pool.Orders
import Rebuild.Proofs.Pool.Steps

/-!
# When a flight overflows its pool

A flight that has its pool for itself never has more tasks under way than slots, and the pool has
room for as many tasks as it has workers and places in its queue.  `Flight.Fresh.steps` and
`Flight.overflown_finish` put the two together: with room for all slots that are ever taken no task is
turned away, in whatever order the workers come to their verdicts, and without it one is turned away
before the first verdict.

* **Room.**  `Pool.submit_eq_error_iff`: the pool turns a task away exactly if its load has reached
  its room, and no step changes the room (`Pool.Alike`).
* **Invariant.**  `Flight.Alone` is kept by every step, and what is turned away is never forgotten.
-/

namespace Rebuild

/-! ## Room -/

namespace Pool

variable {p p' : Pool}

/-- How many tasks a pool with all its workers can have. -/
def room (p : Pool) : Nat := p.size + p.capacity

/-- The pools are alike but for what they work on. -/
structure Alike (p p' : Pool) : Prop where
  size : p'.size = p.size
  capacity : p'.capacity = p.capacity
  isShuttingDown : p'.isShuttingDown = p.isShuttingDown
  workers : p'.workers.length = p.workers.length

lemma Alike.room (h : p.Alike p') : p'.room = p.room := by
  rw [Pool.room, h.size, h.capacity, Pool.room]

lemma Alike.isHealthy (h : p.Alike p') : p'.isHealthy = p.isHealthy := by
  rw [Pool.isHealthy, h.isShuttingDown, h.workers, h.size, Pool.isHealthy]

lemma Alike.trans {p'' : Pool} (h : p.Alike p') (h' : p'.Alike p'') : p.Alike p'' :=
  ⟨h'.size.trans h.size, h'.capacity.trans h.capacity, h'.isShuttingDown.trans h.isShuttingDown,
    h'.workers.trans h.workers⟩

lemma alike_takeNext (p : Pool) (id : Nat) : p.Alike (p.takeNext id) := by
  rw [takeNext]
  split_ifs
  · exact ⟨rfl, rfl, rfl, rfl⟩
  · split
    · exact ⟨rfl, rfl, rfl, rfl⟩
    · exact ⟨rfl, rfl, rfl, List.length_map _⟩

lemma alike_submit {task : Task} {ticket : Ticket} (h : p.submit task = .ok (p', ticket)) :
    p.Alike p' := by
  obtain ⟨-, ⟨w, -, rfl⟩ | ⟨-, rfl⟩⟩ := submit_cases h
  · exact ⟨rfl, rfl, rfl, List.length_map _⟩
  · exact ⟨rfl, rfl, rfl, rfl⟩

lemma alike_report (p : Pool) (id : Nat) (outcome : TaskReport) : p.Alike (p.report id outcome) := by
  rw [report]
  split
  · exact ⟨rfl, rfl, rfl, rfl⟩
  · rename_i w _
    refine Alike.trans ?_ (alike_takeNext _ id)
    cases w.job <;> exact ⟨rfl, rfl, rfl, List.length_map _⟩

/-- A worker that broke down is replaced. -/
lemma alike_crash {w : Worker} (hids : (p.workers.map Worker.id).Nodup)
    (hshut : p.isShuttingDown = false) (hw : p.worker? w.id = some w) (message : Option String) :
    p.Alike (p.crash w.id message) := by
  have hothers : (p.workers.filter fun v => !(v.id == w.id)).length + 1 = p.workers.length := by
    obtain ⟨before, after, hsplit, hne⟩ := exists_split hids (mem_of_worker? hw).1
    have hkept : ∀ v ∈ before ++ after, (!(v.id == w.id)) = true := by
      intro v hv
      simpa using hne v hv
    rw [hsplit, List.filter_append, List.filter_cons_of_neg (by simp), ← List.filter_append,
      List.filter_eq_self.2 hkept]
    simp
    omega
  rw [crash_eq hw, hshut, if_neg Bool.false_ne_true]
  have hreplaced : p.Alike (p.without w message).withNewWorker := by
    refine ⟨rfl, rfl, rfl, ?_⟩
    rw [withNewWorker, without, List.length_append]
    exact hothers
  exact hreplaced.trans (alike_takeNext _ _)

lemma alike_conclude (h : p.Sound) (hshut : p.isShuttingDown = false) {w : Worker}
    (hw : w ∈ p.workers) (taskId : String) (v : Verdict) :
    p.Alike (p.conclude w.id taskId v) := by
  cases v with
  | compiled output dependencies => exact alike_report p w.id _
  | refused message => exact alike_report p w.id _
  | crashed message =>
      exact alike_crash h.nodup_ids hshut (worker?_of_mem h.nodup_ids hw) message

/-- A pool turns a task away exactly if it has no room for it. -/
theorem submit_eq_error_iff (h : p.Sound) (hhealthy : p.isHealthy = true) {task : Task}
    {e : BuildError} :
    p.submit task = .error e ↔ p.room ≤ p.load ∧ e = .queueOverflow p.capacity := by
  obtain ⟨hopen, hall⟩ := Bool.and_eq_true_iff.1 hhealthy
  have hshut : p.isShuttingDown = false := by simpa using hopen
  have hcount : p.workers.countP (fun w => !w.isIdle) ≤ p.workers.length := List.countP_le_length
  have hlength : p.workers.length = p.size := beq_iff_eq.1 hall
  -- No worker is free exactly if all of them are busy.
  have hbusy : p.freeWorker? = none
      ↔ p.workers.countP (fun w => !w.isIdle) = p.workers.length := by
    rw [freeWorker?, List.find?_eq_none, List.countP_eq_length]
    refine forall₂_congr fun w hw => ?_
    simp [Worker.isFree, (h.isOpen hshut).2 w hw]
  have hqueue : p.queue ≠ [] → p.freeWorker? = none := by
    intro hne
    rw [hbusy, List.countP_eq_length]
    intro w hw
    by_contra hidle
    have hnone : w.job = none := by simpa [Worker.isIdle] using hidle
    cases h.busy hne w hw hnone
  rw [submit, hshut, if_neg Bool.false_ne_true, room, load]
  cases hfree : p.freeWorker? with
  | some w =>
      have hempty : p.queue = [] := by
        by_contra hne
        cases hfree.symm.trans (hqueue hne)
      have hnot := mt hbusy.2 (by simp [hfree])
      simp only [reduceCtorEq, false_iff, not_and]
      intro hfull
      rw [hempty, List.length_nil] at hfull
      omega
  | none =>
      have hcountEq := hbusy.1 hfree
      simp only
      split_ifs with hroom
      · simp only [false_iff, not_and]
        omega
      · rw [Except.error.injEq, eq_comm]
        refine (and_iff_right ?_).symm
        omega

end Pool

/-! ## Tasks under way -/

/-- The outcome concerns its task alone. -/
def ConcernsTask (outcome : Outcome) : Prop :=
  ∀ e, outcome = .error e → e.isPerTask = true

/-- The outcome concerns its task alone, or says that the queue is full. -/
def ConcernsTaskOrQueue (capacity : Nat) (outcome : Outcome) : Prop :=
  ConcernsTask outcome ∨ outcome = .error (.queueOverflow capacity)

lemma Judgement.concernsTask (d : Judgement) : ConcernsTask d.outcome := by
  obtain ⟨worker, job, verdict⟩ := d
  intro e he
  cases verdict with
  | compiled output dependencies => cases he
  | refused message => cases he
  | crashed message =>
      cases he
      rfl

/-- What is known or still to come of a slot concerns its task or the queue. -/
inductive Slot.Fair (p : Pool) : Slot → Prop where
  | waiting {ticket : Ticket}
      (h : ∀ outcome, p.answer? ticket = some outcome → ConcernsTask outcome) :
      Fair p (.waiting ticket)
  | settled {outcome : Outcome} (h : ConcernsTaskOrQueue p.capacity outcome) :
      Fair p (.settled outcome)

/-- A pool that takes tasks, has all its workers, and works on nothing. -/
structure Pool.Rested (p : Pool) : Prop where
  sound : p.Sound
  isHealthy : p.isHealthy = true
  pending : p.pending = []

namespace Flight

variable {verdict : Task → Verdict} {start f f' : Flight}

/-- What becomes of a flight that has its pool for itself: every task under way has a slot. -/
structure Alone (start f : Flight) : Prop where
  sound : f.pool.Sound
  isHealthy : f.pool.isHealthy = true
  alike : start.pool.Alike f.pool
  limit : f.limit = start.limit
  within : f.slots.length ≤ start.limit
  left : f.collected.length + f.slots.length + f.remaining.length = start.remaining.length
  waiting : ∀ j ∈ f.pool.pending, .waiting j.ticket ∈ f.slots
  fair : ∀ slot ∈ f.slots, slot.Fair f.pool
  collected : ∀ outcome ∈ f.collected, ConcernsTaskOrQueue f.pool.capacity outcome

/-- A flight over these tasks that has not begun. -/
structure Fresh (f : Flight) : Prop where
  rested : f.pool.Rested
  ordered : f.ordered = true
  limit_pos : 0 < f.limit
  slots : f.slots = []
  collected : f.collected = []

/-- A task of the flight was turned away because the queue was full. -/
def Overflown (f : Flight) : Prop :=
  .settled (.error (.queueOverflow f.pool.capacity)) ∈ f.slots
    ∨ .error (.queueOverflow f.pool.capacity) ∈ f.collected

lemma Fresh.alone (h : start.Fresh) : start.Alone start where
  sound := h.rested.sound
  isHealthy := h.rested.isHealthy
  alike := ⟨rfl, rfl, rfl, rfl⟩
  limit := rfl
  within := by
    rw [h.slots]
    exact Nat.zero_le _
  left := by
    simp [h.slots, h.collected]
  waiting j hj := by
    rw [h.rested.pending] at hj
    cases hj
  fair slot hslot := by
    rw [h.slots] at hslot
    cases hslot
  collected outcome houtcome := by
    rw [h.collected] at houtcome
    cases houtcome

/-- There are not more tasks under way than slots. -/
lemma Alone.load_le (h : start.Alone f) : f.pool.load ≤ f.slots.length := by
  rw [← Pool.length_pending, ← List.length_map (f := fun j : Job => Slot.waiting j.ticket)]
  refine (List.subperm_of_subset ?_ ?_).length_le
  · rw [show (fun j : Job => Slot.waiting j.ticket) = Slot.waiting ∘ Job.ticket from rfl,
      ← List.map_map]
    exact h.sound.booked.nodup.map fun a b hab => by
      cases hab
      rfl
  · intro slot hslot
    obtain ⟨j, hj, rfl⟩ := List.mem_map.1 hslot
    exact h.waiting j hj

/-- A task is submitted: it has a slot whether or not the pool takes it. -/
lemma Alone.submit (h : start.Alone f) {task : Task} {rest : List Task}
    (hrest : f.remaining = task :: rest) (hslot : f.slots.length < f.limit) :
    start.Alone (f.submitNext task rest) ∧
      ((f.submitNext task rest).Overflown →
        f.Overflown ∨ start.pool.room < min start.limit start.remaining.length) := by
  have hlimit := h.limit
  have hleft := h.left
  rw [hrest, List.length_cons] at hleft
  rw [submitNext]
  cases hsubmit : f.pool.submit task with
  | ok given =>
      obtain ⟨p', ticket⟩ := given
      have halike := Pool.alike_submit hsubmit
      obtain ⟨hsound, hperm, hanswers, rfl⟩ := Pool.SoundBut.submit h.sound hsubmit
      have hanswer : ∀ ticket, p'.answer? ticket = f.pool.answer? ticket := fun ticket => by
        rw [Pool.answer?, hanswers, Pool.answer?]
      refine ⟨?_, ?_⟩
      · refine ⟨hsound, halike.isHealthy.trans h.isHealthy, h.alike.trans halike, h.limit, ?_, ?_,
          ?_, ?_, ?_⟩
        · simp only [List.length_append, List.length_singleton]
          omega
        · simp only [List.length_append, List.length_singleton]
          omega
        · intro j hj
          rcases List.mem_cons.1 (hperm.mem_iff.1 hj) with rfl | hj
          · simp
          · exact List.mem_append_left _ (h.waiting j hj)
        · intro slot hmem
          rcases List.mem_append.1 hmem with hmem | hmem
          · cases h.fair slot hmem with
            | waiting hfair => exact .waiting fun o ho => hfair o ((hanswer _).symm.trans ho)
            | settled hfair => exact .settled (halike.capacity ▸ hfair)
          · rw [List.mem_singleton.1 hmem]
            refine .waiting fun o ho => ?_
            rw [hanswer, Pool.answer?, h.sound.booked.lookup_next] at ho
            cases ho
        · intro outcome hmem
          rw [halike.capacity]
          exact h.collected outcome hmem
      · rintro (hmem | hmem)
        · rcases List.mem_append.1 hmem with hmem | hmem
          · exact .inl (.inl (halike.capacity ▸ hmem))
          · simp at hmem
        · exact .inl (.inr (halike.capacity ▸ hmem))
  | error e =>
      obtain ⟨hroom, rfl⟩ := (Pool.submit_eq_error_iff h.sound h.isHealthy).1 hsubmit
      refine ⟨?_, fun _ => .inr ?_⟩
      · refine ⟨h.sound, h.isHealthy, h.alike, h.limit, ?_, ?_, ?_, ?_, h.collected⟩
        · simp only [List.length_append, List.length_singleton]
          omega
        · simp only [List.length_append, List.length_singleton]
          omega
        · exact fun j hj => List.mem_append_left _ (h.waiting j hj)
        · intro slot hmem
          rcases List.mem_append.1 hmem with hmem | hmem
          · exact h.fair slot hmem
          · rw [List.mem_singleton.1 hmem]
            exact .settled (.inr rfl)
      · have hload := h.load_le
        have hsame := h.alike.room
        omega

/-- A worker comes to its verdict: its slot is no longer needed, and stays. -/
lemma Alone.conclude (h : start.Alone f) {w : Worker} {j : Job} (hw : w ∈ f.pool.workers)
    (hjob : w.job = some j) (v : Verdict) :
    start.Alone { f with pool := f.pool.conclude w.id j.task.id v } ∧
      (Overflown { f with pool := f.pool.conclude w.id j.task.id v } → f.Overflown) := by
  have hshut : f.pool.isShuttingDown = false := by
    simpa using (Bool.and_eq_true_iff.1 h.isHealthy).1
  have halike := Pool.alike_conclude h.sound hshut hw j.task.id v
  have hconcluded := Pool.SoundBut.conclude h.sound (d := ⟨w.id, j, v⟩)
    (Pool.worker?_of_mem h.sound.nodup_ids hw) hjob
  refine ⟨⟨hconcluded.sound, halike.isHealthy.trans h.isHealthy, h.alike.trans halike, h.limit,
    h.within, h.left, ?_, ?_, ?_⟩, ?_⟩
  · intro i hi
    exact h.waiting i (hconcluded.pending.mem_iff.2 (List.mem_cons_of_mem _ hi))
  · intro slot hmem
    cases h.fair slot hmem with
    | settled hfair => exact .settled (halike.capacity ▸ hfair)
    | @waiting ticket hfair =>
        refine .waiting fun o ho => ?_
        rw [Pool.answer?, hconcluded.answers, List.lookup_cons] at ho
        split at ho
        · cases ho
          exact Judgement.concernsTask _
        · exact hfair o ho
  · intro outcome hmem
    rw [halike.capacity]
    exact h.collected outcome hmem
  · rintro (hmem | hmem)
    · exact .inl (halike.capacity ▸ hmem)
    · exact .inr (halike.capacity ▸ hmem)

/-- An answer is noted: its task is not under way any more. -/
lemma Alone.note (h : start.Alone f) {before after : List Slot} {ticket : Ticket}
    {outcome : Outcome} (hslots : f.slots = before ++ .waiting ticket :: after)
    (hanswer : f.pool.answer? ticket = some outcome) :
    start.Alone { f with slots := before ++ .settled outcome :: after } ∧
      (Overflown { f with slots := before ++ .settled outcome :: after } → f.Overflown) := by
  have hconcerns : ConcernsTask outcome := by
    cases h.fair (.waiting ticket) (by simp [hslots]) with
    | waiting hfair => exact hfair outcome hanswer
  have hlength : (before ++ .settled outcome :: after).length = f.slots.length := by
    simp [hslots]
  refine ⟨⟨h.sound, h.isHealthy, h.alike, h.limit, hlength ▸ h.within, hlength ▸ h.left, ?_, ?_,
    h.collected⟩, ?_⟩
  · intro j hj
    have hmem := h.waiting j hj
    have hne : j.ticket ≠ ticket := by
      rintro rfl
      cases (h.sound.booked.unanswered j hj).symm.trans hanswer
    rw [hslots] at hmem
    simpa [hne] using hmem
  · intro slot hmem
    rw [List.mem_append, List.mem_cons] at hmem
    rcases hmem with hmem | rfl | hmem
    · exact h.fair slot (by simp [hslots, hmem])
    · exact .settled (.inl hconcerns)
    · exact h.fair slot (by simp [hslots, hmem])
  · rintro (hmem | hmem)
    · rw [List.mem_append, List.mem_cons] at hmem
      rcases hmem with hmem | heq | hmem
      · exact .inl (by simp [hslots, hmem])
      · cases hconcerns _ (Slot.settled.inj heq).symm
      · exact .inl (by simp [hslots, hmem])
    · exact .inr hmem

/-- The oldest slot is freed: its outcome is kept. -/
lemma Alone.free (h : start.Alone f) {outcome : Outcome} {rest : List Slot}
    (hslots : f.slots = .settled outcome :: rest) :
    start.Alone { f with slots := rest, collected := outcome :: f.collected } ∧
      (Overflown { f with slots := rest, collected := outcome :: f.collected } → f.Overflown) := by
  have hlength : f.slots.length = rest.length + 1 := by
    rw [hslots, List.length_cons]
  have hwithin := h.within
  have hleft := h.left
  refine ⟨⟨h.sound, h.isHealthy, h.alike, h.limit, ?_, ?_, ?_, ?_, ?_⟩, ?_⟩
  · show rest.length ≤ _
    omega
  · show (outcome :: f.collected).length + rest.length + f.remaining.length = _
    rw [List.length_cons]
    omega
  · intro j hj
    have hmem := h.waiting j hj
    rw [hslots] at hmem
    simpa using hmem
  · intro slot hmem
    exact h.fair slot (by simp [hslots, hmem])
  · intro o hmem
    rcases List.mem_cons.1 hmem with rfl | hmem
    · cases h.fair (.settled o) (by simp [hslots]) with
      | settled hfair => exact hfair
    · exact h.collected o hmem
  · rintro (hmem | hmem)
    · exact .inl (by simp [hslots, hmem])
    · rcases List.mem_cons.1 hmem with heq | hmem
      · exact .inl (by simp [hslots, heq])
      · exact .inr hmem

/-- **One step.**  A flight stays alone with its pool, and a task is turned away only where there
are more slots, and more tasks for them, than the pool has room for. -/
lemma Alone.step (h : start.Alone f) (hstep : Step verdict f f') :
    start.Alone f' ∧ (f'.Overflown →
      f.Overflown ∨ start.pool.room < min start.limit start.remaining.length) := by
  cases hstep with
  | submit hrest hslot => exact h.submit hrest hslot
  | conclude hw hjob => exact (h.conclude hw hjob _).imp_right fun hkept h => .inl (hkept h)
  | note hslots hanswer => exact (h.note hslots hanswer).imp_right fun hkept h => .inl (hkept h)
  | free hslots => exact (h.free hslots).imp_right fun hkept h => .inl (hkept h)

/-- **A whole run**, in any order. -/
lemma Fresh.steps (h : start.Fresh) (hsteps : Steps verdict start f) :
    start.Alone f ∧ (f.Overflown → start.pool.room < min start.limit start.remaining.length) := by
  induction hsteps with
  | refl =>
      refine ⟨h.alone, ?_⟩
      rintro (hmem | hmem)
      · simp [h.slots] at hmem
      · simp [h.collected] at hmem
  | tail _ hstep ih =>
      obtain ⟨halone, hroom⟩ := ih
      obtain ⟨halone', hroom'⟩ := halone.step hstep
      exact ⟨halone', fun hover => (hroom' hover).elim hroom id⟩

/-- A flight at its end has given its pool back. -/
lemma Alone.rested (h : start.Alone f) (hended : f.Ended) : f.pool.Rested where
  sound := h.sound
  isHealthy := h.isHealthy
  pending := by
    refine List.eq_nil_iff_forall_not_mem.2 fun j hj => ?_
    have hmem := h.waiting j hj
    rw [hended.2] at hmem
    cases hmem

/-! ## Too many slots -/

/-- What was turned away is not forgotten. -/
lemma Overflown.step (hover : f.Overflown) (h : start.Alone f) (hstep : Step verdict f f') :
    f'.Overflown := by
  have hcapacity : f'.pool.capacity = f.pool.capacity :=
    (h.step hstep).1.alike.capacity.trans h.alike.capacity.symm
  rw [Overflown, hcapacity]
  cases hstep with
  | submit =>
      rw [submitNext]
      split <;> exact hover.imp_left (List.mem_append_left _)
  | conclude => exact hover
  | note hslots _ =>
      refine hover.imp_left fun hmem => ?_
      rw [hslots, List.mem_append, List.mem_cons] at hmem
      rcases hmem with hmem | heq | hmem
      · exact List.mem_append_left _ hmem
      · cases heq
      · exact List.mem_append_right _ (List.mem_cons_of_mem _ hmem)
  | free hslots =>
      rcases hover with hmem | hmem
      · rw [hslots, List.mem_cons] at hmem
        rcases hmem with heq | hmem
        · cases heq
          exact .inr List.mem_cons_self
        · exact .inl hmem
      · exact .inr (List.mem_cons_of_mem _ hmem)

lemma Overflown.steps (hover : f.Overflown) (h : start.Alone f) (hsteps : Steps verdict f f') :
    f'.Overflown := by
  suffices hboth : start.Alone f' ∧ f'.Overflown from hboth.2
  induction hsteps with
  | refl => exact ⟨h, hover⟩
  | tail _ hstep ih => exact ⟨(ih.1.step hstep).1, ih.2.step ih.1 hstep⟩

/-- Before the first verdict, as many tasks are accepted as there is room for, and the next one is
turned away. -/
lemma Alone.overflown_fillWith (verdict : Task → Verdict) (h : start.Alone f) {waiting : List Task}
    (hwaiting : f.remaining = waiting) (hload : f.pool.load = f.slots.length)
    (hwithin : f.slots.length ≤ start.pool.room)
    (hroom : start.pool.room < min start.limit (f.slots.length + waiting.length)) :
    (f.fillWith waiting).Overflown := by
  induction waiting generalizing f with
  | nil =>
      rw [List.length_nil] at hroom
      omega
  | cons task rest ih =>
      have hslot : f.slots.length < f.limit := by
        rw [h.limit]
        omega
      obtain ⟨hnext, -⟩ := h.submit hwaiting hslot
      have hsame := h.alike.room
      rw [Flight.fillWith, if_pos hslot]
      cases hsubmit : f.pool.submit task with
      | ok given =>
          obtain ⟨p', ticket⟩ := given
          obtain ⟨-, hperm, -⟩ := Pool.SoundBut.submit h.sound hsubmit
          have hmore : p'.load = f.pool.load + 1 := by
            rw [← Pool.length_pending, ← Pool.length_pending, hperm.length_eq, List.length_cons]
          have hfits : f.pool.load < f.pool.room := by
            by_contra hfull
            have herror : f.pool.submit task = .error (.queueOverflow f.pool.capacity) :=
              (Pool.submit_eq_error_iff h.sound h.isHealthy).2 ⟨Nat.le_of_not_lt hfull, rfl⟩
            cases hsubmit.symm.trans herror
          rw [submitNext, hsubmit] at hnext ⊢
          have hlength : (f.slots ++ [Slot.waiting ticket]).length = f.slots.length + 1 := by
            rw [List.length_append, List.length_singleton]
          refine ih hnext rfl ?_ ?_ ?_
          · show p'.load = (f.slots ++ [Slot.waiting ticket]).length
            omega
          · show (f.slots ++ [Slot.waiting ticket]).length ≤ _
            omega
          · show _ < min _ ((f.slots ++ [Slot.waiting ticket]).length + _)
            rw [List.length_cons] at hroom
            omega
      | error e =>
          obtain ⟨-, rfl⟩ := (Pool.submit_eq_error_iff h.sound h.isHealthy).1 hsubmit
          have hover : (f.submitNext task rest).Overflown := by
            rw [submitNext, hsubmit]
            exact .inl (by simp)
          have hremaining : (f.submitNext task rest).remaining = rest := by
            rw [submitNext, hsubmit]
          exact hover.steps hnext (steps_fillWith verdict hremaining)

/-- Without room for every slot that is taken, a flight that runs by itself has a task turned away.
-/
theorem overflown_finish (h : start.Fresh) (verdict : Task → Verdict)
    (hroom : start.pool.room < min start.limit start.remaining.length) :
    (start.finish fun t => some (verdict t)).Overflown := by
  have hbegun : Steps verdict start start.settle.collect :=
    (steps_settle verdict start).trans (steps_collect verdict h.ordered)
  have halone := (h.steps hbegun).1
  have hslots : start.settle.collect.slots = [] := by
    rw [collect, settle, h.slots]
    simp [splitFront]
  have hload : start.settle.collect.pool.load = 0 := by
    rw [← Pool.length_pending]
    show start.pool.pending.length = 0
    rw [h.rested.pending, List.length_nil]
  have hround : start.settle.collect.fill.Overflown := by
    refine halone.overflown_fillWith verdict rfl ?_ ?_ ?_
    · rw [hload, hslots, List.length_nil]
    · rw [hslots]
      exact Nat.zero_le _
    · rw [hslots, List.length_nil, Nat.zero_add]
      exact hroom
  have hfilled := (h.steps (steps_round verdict h.ordered)).1
  exact hround.steps hfilled (steps_finish_of_round verdict h.ordered)

/-- A flight that runs by itself comes to its end. -/
lemma Fresh.ended_finish (h : start.Fresh) (verdict : Task → Verdict) :
    (start.finish fun t => some (verdict t)).Ended := by
  have hcarries : start.Carries verdict start.remaining :=
    ⟨h.rested.sound, h.ordered, h.limit_pos, [], [], rfl, by simp [outcomes, h.collected],
      by simp [h.slots]⟩
  exact hcarries.finish.2

end Flight
end Rebuild
