import Mathlib.Data.List.Forall2
import Mathlib.Tactic.Common
import Rebuild.Pool.Flight
import Rebuild.Proofs.Pool.Sound

/-!
# Flights and their tasks

What a flight has done, and what it has still to do.

* **Tickets.**  `Owes` ties a ticket to its task for as long as anybody may ask.
* **Tasks.**  `Flight.Carries` cuts the list of tasks in three: those with collected outcomes, those
  in slots, and those still to come.
* **The end.**  Each verdict lowers `Flight.left`, which is what the flight has for fuel; so it goes
  on until it is `Full` and nothing is pending (`finish_left`), and then its slot list is empty.
-/

namespace Rebuild

/-! ## Tickets -/

/-- What may be answered to a task: what its compiler says, or that the pool does not take it. -/
inductive Answers (verdict : Task → Verdict) (task : Task) : Outcome → Prop where
  | concluded {outcome : Outcome} (h : Pool.Concludes task (verdict task) outcome) :
      Answers verdict task outcome
  | turnedAway (e : BuildError) (h : e.isPerTask = false) : Answers verdict task (.error e)

namespace Pool

/-- The ticket stands for the task: it is pending, or has its answer. -/
def Owes (p : Pool) (verdict : Task → Verdict) (ticket : Ticket) (task : Task) : Prop :=
  ⟨ticket, task⟩ ∈ p.pending ∨
    ∃ outcome, p.answer? ticket = some outcome ∧ Answers verdict task outcome

variable {p p' : Pool} {verdict : Task → Verdict} {ticket : Ticket} {task : Task}

lemma Owes.submit (h : p.Owes verdict ticket task) (hsound : p.Sound) {next : Task} {given : Ticket}
    (hsubmit : p.submit next = .ok (p', given)) : p'.Owes verdict ticket task := by
  obtain ⟨-, hperm, hanswers, -⟩ := SoundBut.submit hsound hsubmit
  rcases h with hpending | hanswered
  · exact Or.inl (hperm.mem_iff.2 (List.mem_cons_of_mem _ hpending))
  · right
    rw [answer?]
    rwa [hanswers]

lemma Owes.of_submit (hsound : p.Sound) (hsubmit : p.submit task = .ok (p', ticket)) :
    p'.Owes verdict ticket task := by
  obtain ⟨-, hperm, -, -⟩ := SoundBut.submit hsound hsubmit
  exact Or.inl (hperm.mem_iff.2 List.mem_cons_self)

/-- One pending task is answered with what its compiler says. -/
lemma Owes.answer (h : p.Owes verdict ticket task) (hsound : p.Sound) {j : Job} {outcome : Outcome}
    (hperm : p.pending.Perm (j :: p'.pending))
    (hanswers : p'.answers = (j.ticket, outcome) :: p.answers)
    (hconcludes : Concludes j.task (verdict j.task) outcome) : p'.Owes verdict ticket task := by
  rcases h with hpending | ⟨found, hfound, hlegit⟩
  · rcases List.mem_cons.1 (hperm.mem_iff.1 hpending) with rfl | hpending
    · refine Or.inr ⟨outcome, ?_, .concluded hconcludes⟩
      rw [answer?]
      rw [hanswers, List.lookup_cons_self]
    · exact Or.inl hpending
  · refine Or.inr ⟨found, ?_, hlegit⟩
    have hne : ticket ≠ j.ticket := by
      rintro rfl
      have hnone := hsound.booked.unanswered j (hperm.mem_iff.2 List.mem_cons_self)
      cases hnone.symm.trans hfound
    rw [answer?]
    rw [hanswers, List.lookup_cons, beq_false_of_ne hne]
    exact hfound

/-- The answer to a ticket answers its task. -/
lemma Owes.answers (h : p.Owes verdict ticket task) (hsound : p.Sound) {outcome : Outcome}
    (hanswer : p.answer? ticket = some outcome) : Answers verdict task outcome := by
  rcases h with hpending | ⟨found, hfound, hlegit⟩
  · cases (hsound.booked.unanswered _ hpending).symm.trans hanswer
  · cases hfound.symm.trans hanswer
    exact hlegit

/-- A task that is turned away meets an error that does not concern it alone. -/
lemma isPerTask_of_submit {e : BuildError} (h : p.submit task = .error e) :
    e.isPerTask = false := by
  rw [Pool.submit] at h
  by_cases hshut : p.isShuttingDown = true
  · rw [if_pos hshut] at h
    cases h
    rfl
  rw [if_neg hshut] at h
  cases hfree : p.freeWorker? with
  | some w =>
      simp only [hfree] at h
      cases h
  | none =>
      simp only [hfree] at h
      split_ifs at h
      cases h
      rfl

end Pool

/-- The slot is that of the task. -/
inductive Slot.Holds (p : Pool) (verdict : Task → Verdict) (task : Task) : Slot → Prop where
  | waiting {ticket : Ticket} (h : p.Owes verdict ticket task) :
    Holds p verdict task (.waiting ticket)
  | settled {outcome : Outcome} (h : Answers verdict task outcome) :
      Holds p verdict task (.settled outcome)

namespace Flight

/-! ## What a flight carries -/

/-- A flight in order of these tasks: the first of them have their outcomes, the next ones are in
slots, and the rest is to come. -/
structure Carries (f : Flight) (verdict : Task → Verdict) (tasks : List Task) : Prop where
  sound : f.pool.Sound
  ordered : f.ordered = true
  limit_pos : 0 < f.limit
  parts : ∃ finished under, tasks = finished ++ (under ++ f.remaining)
    ∧ List.Forall₂ (Answers verdict) finished f.outcomes
    ∧ List.Forall₂ (Slot.Holds f.pool verdict) under f.slots

/-- What is still to be done: tasks to come, and pending ones. -/
def left (f : Flight) : Nat := f.remaining.length + f.pool.load

/-- The oldest slot waits for its answer, and nothing more can be submitted. -/
def Full (f : Flight) : Prop :=
  (∀ slot ∈ f.slots.head?, ∃ ticket, slot = .waiting ticket ∧ f.pool.answer? ticket = none)
    ∧ (f.remaining = [] ∨ f.limit ≤ f.slots.length)

/-- All outcomes are collected. -/
def Ended (f : Flight) : Prop := f.remaining = [] ∧ f.slots = []

variable {f : Flight} {verdict : Task → Verdict} {tasks : List Task}

/-! ## How much is left -/

lemma submitNext_left (h : f.pool.Sound) {task : Task} {rest : List Task}
    (hrest : f.remaining = task :: rest) :
    (f.submitNext task rest).pool.Sound ∧ (f.submitNext task rest).left ≤ f.left
      ∧ (f.submitNext task rest).remaining = rest := by
  simp only [Flight.submitNext, left]
  cases hsubmit : f.pool.submit task with
  | ok given =>
      obtain ⟨p', ticket⟩ := given
      obtain ⟨hsound, hperm, -, -⟩ := Pool.SoundBut.submit h hsubmit
      have hload : p'.load = f.pool.load + 1 := by
        rw [← Pool.length_pending, ← Pool.length_pending, hperm.length_eq, List.length_cons]
      refine ⟨hsound, ?_, rfl⟩
      simp only [hload, hrest, List.length_cons]
      omega
  | error e =>
      refine ⟨h, ?_, rfl⟩
      simp only [hrest, List.length_cons]
      omega

/-- Filling submits tasks until there is no slot or no task; it does nothing or shortens the list of
tasks to come. -/
lemma fillWith_left {waiting : List Task} (h : f.pool.Sound) (hwaiting : f.remaining = waiting) :
    (f.fillWith waiting).pool.Sound ∧ (f.fillWith waiting).left ≤ f.left
      ∧ (f.fillWith waiting = f ∨ (f.fillWith waiting).remaining.length < f.remaining.length)
      ∧ ((f.fillWith waiting).remaining = []
        ∨ (f.fillWith waiting).limit ≤ (f.fillWith waiting).slots.length) := by
  induction waiting generalizing f with
  | nil => exact ⟨h, Nat.le_refl _, Or.inl rfl, Or.inl hwaiting⟩
  | cons task rest ih =>
      rw [Flight.fillWith]
      by_cases hroom : f.slots.length < f.limit
      · rw [if_pos hroom]
        obtain ⟨hnext, hleft, hremaining⟩ := submitNext_left h hwaiting
        obtain ⟨hsound, hle, hshorter, hfull⟩ := ih hnext hremaining
        refine ⟨hsound, Nat.le_trans hle hleft, Or.inr ?_, hfull⟩
        rw [hwaiting, List.length_cons]
        rcases hshorter with heq | hlt
        · rw [heq, hremaining]
          exact Nat.lt_succ_self _
        · rw [hremaining] at hlt
          exact Nat.lt_succ_of_lt hlt
      · rw [if_neg hroom]
        exact ⟨h, Nat.le_refl _, Or.inl rfl, Or.inr (Nat.le_of_not_lt hroom)⟩

/-- The settled slots at the front, and a rest that does not open with one. -/
lemma splitFront_spec (slots : List Slot) :
    slots = (splitFront slots).1.map Slot.settled ++ (splitFront slots).2
      ∧ ∀ slot ∈ (splitFront slots).2.head?, slot ∈ slots ∧ ∃ ticket, slot = .waiting ticket := by
  induction slots with
  | nil => simp [splitFront]
  | cons slot slots ih =>
      cases slot with
      | waiting ticket => simp [splitFront]
      | settled outcome =>
          obtain ⟨hsplit, hhead⟩ := ih
          refine ⟨congrArg (Slot.settled outcome :: ·) hsplit, fun slot hslot => ?_⟩
          obtain ⟨hmem, hwaiting⟩ := hhead slot hslot
          exact ⟨List.mem_cons_of_mem _ hmem, hwaiting⟩

/-- Collecting leaves a slot at the front that waits, in order or not. -/
lemma head?_collect (f : Flight) :
    ∀ slot ∈ f.collect.slots.head?, slot ∈ f.slots ∧ ∃ ticket, slot = .waiting ticket := by
  rw [Flight.collect]
  cases f.ordered with
  | true => exact (splitFront_spec f.slots).2
  | false =>
      intro slot hslot
      obtain ⟨hmem, hopen⟩ := List.mem_filter.1 (List.mem_of_mem_head? hslot)
      cases slot with
      | waiting ticket => exact ⟨hmem, ticket, rfl⟩
      | settled outcome => cases hopen

/-- When the settled slots are collected, the oldest slot still waits for its answer. -/
lemma head?_settle_collect (f : Flight) : ∀ slot ∈ f.settle.collect.slots.head?,
    ∃ ticket, slot = .waiting ticket ∧ f.pool.answer? ticket = none := by
  intro slot hslot
  obtain ⟨hmem, ticket, rfl⟩ := head?_collect f.settle slot hslot
  refine ⟨ticket, rfl, ?_⟩
  obtain ⟨before, -, heq⟩ := List.mem_map.1 hmem
  cases before with
  | settled outcome => cases heq
  | waiting k =>
      rw [Slot.settle] at heq
      cases hanswer : f.pool.answer? k with
      | none =>
          simp only [hanswer] at heq
          cases heq
          exact hanswer
      | some outcome =>
          simp only [hanswer] at heq
          cases heq

/-- Refilling goes on until the flight is full. -/
lemma pump_left {n : Nat} (h : f.pool.Sound) (hn : f.remaining.length < n) :
    (f.pump n).pool.Sound ∧ (f.pump n).left ≤ f.left ∧ (f.pump n).Full := by
  induction n generalizing f with
  | zero => exact absurd hn (Nat.not_lt_zero _)
  | succ n ih =>
      -- Noting answers and freeing slots leaves the pool and the tasks to come as they are.
      have hround : f.settle.collect.pool.Sound ∧ f.settle.collect.left = f.left
          ∧ f.settle.collect.remaining = f.remaining := ⟨h, rfl, rfl⟩
      obtain ⟨hsound, hleft, hremaining⟩ := hround
      obtain ⟨hfilled, hle, hsame, hfull⟩ := fillWith_left hsound rfl
      rw [hleft] at hle
      rw [hremaining] at hsame
      rw [Flight.pump]
      by_cases hshorter : f.settle.collect.fill.remaining.length < f.remaining.length
      · rw [if_pos hshorter]
        obtain ⟨hend, hend_le, hend_full⟩ := ih (f := f.settle.collect.fill) hfilled
          (Nat.lt_of_lt_of_le hshorter (Nat.le_of_lt_succ hn))
        exact ⟨hend, Nat.le_trans hend_le hle, hend_full⟩
      · rw [if_neg hshorter]
        refine ⟨hfilled, hle, ?_, hfull⟩
        have heq : f.settle.collect.fill = f.settle.collect := hsame.resolve_right hshorter
        rw [heq]
        exact head?_settle_collect f

/-- With fuel for all that is left, a flight goes on until nothing is pending. -/
lemma advance_left {n : Nat} (h : f.pool.Sound) (hfull : f.Full) (hn : f.left ≤ n) :
    (f.advance (fun t => some (verdict t)) n).Full
      ∧ (f.advance (fun t => some (verdict t)) n).pool.pending = [] := by
  induction n generalizing f with
  | zero =>
      refine ⟨hfull, List.eq_nil_of_length_eq_zero ?_⟩
      show f.pool.pending.length = 0
      rw [Pool.length_pending]
      rw [left] at hn
      omega
  | succ n ih =>
      rw [Flight.advance]
      cases hstep : f.pool.advance? (fun t => some (verdict t)) with
      | none => exact ⟨hfull, Pool.SoundBut.pending_eq_nil h hstep⟩
      | some p' =>
          obtain ⟨j, -, -, -, -, hsound, hperm, -⟩ := Pool.SoundBut.advance? h hstep
          have hload : f.pool.load = p'.load + 1 := by
            rw [← Pool.length_pending, ← Pool.length_pending, hperm.length_eq, List.length_cons]
          obtain ⟨hrefilled, hle, hfull'⟩ :=
            pump_left (f := { f with pool := p' }) hsound (Nat.lt_succ_self _)
          refine ih hrefilled hfull' (Nat.le_of_lt_succ (Nat.lt_of_lt_of_le ?_ hn))
          refine Nat.lt_of_le_of_lt hle ?_
          show f.remaining.length + p'.load < f.remaining.length + f.pool.load
          omega

/-- A flight that runs by itself goes on until nothing is pending. -/
lemma finish_left (h : f.pool.Sound) :
    (f.finish fun t => some (verdict t)).Full
      ∧ (f.finish fun t => some (verdict t)).pool.pending = [] := by
  obtain ⟨hsound, hle, hfull⟩ := pump_left h (Nat.lt_succ_self _)
  exact advance_left hsound hfull hle

/-- A full flight whose oldest slot does not wait has come to its end. -/
lemma Full.ended (h : f.Full) (hlimit : f.remaining = [] ∨ 0 < f.limit)
    (hanswered : ∀ ticket slots, f.slots = .waiting ticket :: slots →
      f.pool.answer? ticket ≠ none) : f.Ended := by
  have hslots : f.slots = [] := by
    cases hslots : f.slots with
    | nil => rfl
    | cons slot slots =>
        obtain ⟨ticket, rfl, hopen⟩ := h.1 slot (by simp [hslots])
        exact absurd hopen (hanswered ticket slots hslots)
  refine ⟨hlimit.elim id fun hpos => h.2.resolve_right ?_, hslots⟩
  rw [hslots]
  exact Nat.not_le_of_lt hpos

/-! ## Tasks and outcomes -/

lemma Carries.submitNext (h : f.Carries verdict tasks) {task : Task} {rest : List Task}
    (hrest : f.remaining = task :: rest) : (f.submitNext task rest).Carries verdict tasks := by
  obtain ⟨finished, under, hparts, hfinished, hunder⟩ := h.parts
  have hlast : tasks = finished ++ ((under ++ [task]) ++ rest) := by
    rw [hparts, hrest]
    simp
  rw [Flight.submitNext]
  cases hsubmit : f.pool.submit task with
  | ok given =>
      obtain ⟨p', ticket⟩ := given
      have hslots : List.Forall₂ (Slot.Holds p' verdict) (under ++ [task])
          (f.slots ++ [.waiting ticket]) := by
        refine List.rel_append (hunder.imp fun t slot hslot => ?_)
          (.cons (.waiting (.of_submit h.sound hsubmit)) .nil)
        cases hslot with
        | waiting howes => exact .waiting (howes.submit h.sound hsubmit)
        | settled hlegit => exact .settled hlegit
      exact ⟨(Pool.SoundBut.submit h.sound hsubmit).1, h.ordered, h.limit_pos, finished, _, hlast,
        hfinished, hslots⟩
  | error e =>
      have hslots : List.Forall₂ (Slot.Holds f.pool verdict) (under ++ [task])
          (f.slots ++ [.settled (.error e)]) :=
        List.rel_append hunder
          (.cons (.settled (.turnedAway e (Pool.isPerTask_of_submit hsubmit))) .nil)
      exact ⟨h.sound, h.ordered, h.limit_pos, finished, _, hlast, hfinished, hslots⟩

/-- A full flight with nothing pending has come to its end. -/
lemma Carries.ended (h : f.Carries verdict tasks) (hfull : f.Full) (hnone : f.pool.pending = []) :
    f.Ended := by
  refine hfull.ended (.inr h.limit_pos) fun ticket slots hslots hopen => ?_
  obtain ⟨finished, under, -, -, hunder⟩ := h.parts
  rw [hslots] at hunder
  cases hunder with
  | cons hslot _ =>
      cases hslot with
      | waiting howes =>
          rcases howes with hpending | ⟨outcome, hanswer, -⟩
          · simp [hnone] at hpending
          · cases hopen.symm.trans hanswer

/-- At the end every task has its outcome. -/
lemma Carries.answers (h : f.Carries verdict tasks) (hended : f.Ended) :
    List.Forall₂ (Answers verdict) tasks f.outcomes := by
  obtain ⟨finished, under, hparts, hfinished, hunder⟩ := h.parts
  rw [hended.2] at hunder
  cases hunder
  rwa [hparts, hended.1, List.append_nil, List.append_nil]

/-- Nothing of the tasks is done when a flight starts. -/
lemma carries_start {p : Pool} (h : p.Sound) (verdict : Task → Verdict) {limit : Nat}
    (hlimit : 0 < limit) (tasks : List Task) :
    Carries { pool := p, remaining := tasks, limit, ordered := true } verdict tasks :=
  ⟨h, rfl, hlimit, [], [], rfl, .nil, .nil⟩

end Flight
end Rebuild
