import Mathlib.Logic.Relation
import Rebuild.Proofs.Pool.Ordered
import Rebuild.Proofs.Pool.Steps

/-!
# The orders a flight can take

`Flight.finish` has the workers come to their verdicts in one order.  `Flight.Move` leaves the order
open: tasks are submitted, verdicts reached, answers noted and slots freed whenever they can be.  A
flight whose outcomes are to come in order frees its oldest slot only, which is `Flight.Step`.

* **Runs.**  What `Flight.finish` does is one run of these moves (`moves_finish`).
* **Tasks.**  In every order of steps each task gets an outcome that answers it, at its own place
  (`Carries.steps` and `Carries.answers`).
* **Endpoint.**  `executeWithLimit_spec`.
-/

namespace Rebuild

namespace Flight

variable {verdict : Task → Verdict} {f f' : Flight}

/-- One step of a flight in order; the workers come to their verdicts in any order. -/
inductive Step (verdict : Task → Verdict) : Flight → Flight → Prop where
  /-- The oldest task is submitted. -/
  | submit {f : Flight} {task : Task} {rest : List Task} (hrest : f.remaining = task :: rest)
      (hslot : f.slots.length < f.limit) : Step verdict f (f.submitNext task rest)
  /-- A worker comes to its verdict. -/
  | conclude {f : Flight} {w : Worker} {j : Job} (hw : w ∈ f.pool.workers)
      (hjob : w.job = some j) :
      Step verdict f { f with pool := f.pool.conclude w.id j.task.id (verdict j.task) }
  /-- An answer of the pool is noted. -/
  | note {f : Flight} {before after : List Slot} {ticket : Ticket} {outcome : Outcome}
      (hslots : f.slots = before ++ .waiting ticket :: after)
      (hanswer : f.pool.answer? ticket = some outcome) :
      Step verdict f { f with slots := before ++ .settled outcome :: after }
  /-- The oldest slot is freed. -/
  | free {f : Flight} {outcome : Outcome} {rest : List Slot}
      (hslots : f.slots = .settled outcome :: rest) :
      Step verdict f { f with slots := rest, collected := outcome :: f.collected }

/-- One move of a flight, in order or not. -/
inductive Move (verdict : Task → Verdict) : Flight → Flight → Prop where
  | submit {f : Flight} {task : Task} {rest : List Task} (hrest : f.remaining = task :: rest)
      (hslot : f.slots.length < f.limit) : Move verdict f (f.submitNext task rest)
  | conclude {f : Flight} {w : Worker} {j : Job} (hw : w ∈ f.pool.workers)
      (hjob : w.job = some j) :
      Move verdict f { f with pool := f.pool.conclude w.id j.task.id (verdict j.task) }
  | note {f : Flight} {before after : List Slot} {ticket : Ticket} {outcome : Outcome}
      (hslots : f.slots = before ++ .waiting ticket :: after)
      (hanswer : f.pool.answer? ticket = some outcome) :
      Move verdict f { f with slots := before ++ .settled outcome :: after }
  /-- A slot is freed; in order, only the oldest one can be. -/
  | free {f : Flight} {before after : List Slot} {outcome : Outcome}
      (hslots : f.slots = before ++ .settled outcome :: after)
      (hfirst : f.ordered = true → before = []) :
      Move verdict f { f with slots := before ++ after, collected := outcome :: f.collected }

/-- The steps of a flight in order. -/
abbrev Steps (verdict : Task → Verdict) : Flight → Flight → Prop :=
  Relation.ReflTransGen (Step verdict)

/-- The moves of a flight. -/
abbrev Moves (verdict : Task → Verdict) : Flight → Flight → Prop :=
  Relation.ReflTransGen (Move verdict)

lemma Step.move (h : Step verdict f f') : Move verdict f f' := by
  cases h with
  | submit hrest hslot => exact .submit hrest hslot
  | conclude hw hjob => exact .conclude hw hjob
  | note hslots hanswer => exact .note hslots hanswer
  | @free outcome rest hslots =>
      have hfirst : f.slots = [] ++ .settled outcome :: rest := hslots
      exact .free hfirst fun _ => rfl

lemma Steps.moves (h : Steps verdict f f') : Moves verdict f f' :=
  Relation.ReflTransGen.mono (fun _ _ => Step.move) _ _ h

/-- A flight in order moves by its steps. -/
lemma Move.step (h : Move verdict f f') (hordered : f.ordered = true) : Step verdict f f' := by
  cases h with
  | submit hrest hslot => exact .submit hrest hslot
  | conclude hw hjob => exact .conclude hw hjob
  | note hslots hanswer => exact .note hslots hanswer
  | free hslots hfirst =>
      obtain rfl := hfirst hordered
      exact .free hslots

lemma ordered_submitNext (f : Flight) (task : Task) (rest : List Task) :
    (f.submitNext task rest).ordered = f.ordered := by
  rw [submitNext]
  split <;> rfl

lemma Moves.ordered (h : Moves verdict f f') : f'.ordered = f.ordered := by
  induction h with
  | refl => rfl
  | tail _ hmove ih =>
      rw [← ih]
      cases hmove with
      | submit => exact ordered_submitNext _ _ _
      | _ => rfl

lemma Moves.steps (h : Moves verdict f f') (hordered : f.ordered = true) : Steps verdict f f' := by
  induction h with
  | refl => exact .refl
  | tail hmoves hmove ih => exact ih.tail (hmove.step ((Moves.ordered hmoves).trans hordered))

/-! ## What a flight carries -/

/-- What is related to an element is in the place of that element. -/
lemma exists_split_of_forall₂ {α β : Type} {R : α → β → Prop} {as : List α} {before after : List β}
    {b : β} (h : List.Forall₂ R as (before ++ b :: after)) :
    ∃ first a last, as = first ++ a :: last ∧ List.Forall₂ R first before ∧ R a b
      ∧ List.Forall₂ R last after := by
  have hfirst := List.forall₂_take_append _ _ _ h
  obtain ⟨a, last, hab, hlast, hrest⟩ :=
    List.forall₂_cons_right_iff.1 (List.forall₂_drop_append _ _ _ h)
  refine ⟨_, a, last, ?_, hfirst, hab, hlast⟩
  rw [← hrest, List.take_append_drop]

section

variable {tasks : List Task}

/-- Verdicts keep what slots wait for. -/
lemma Carries.conclude (h : f.Carries verdict tasks) {w : Worker} {j : Job}
    (hw : w ∈ f.pool.workers) (hjob : w.job = some j) :
    Carries { f with pool := f.pool.conclude w.id j.task.id (verdict j.task) } verdict tasks := by
  obtain ⟨finished, under, hparts, hfinished, hunder⟩ := h.parts
  have hconcluded := Pool.SoundBut.conclude h.sound (d := ⟨w.id, j, verdict j.task⟩)
    (Pool.worker?_of_mem h.sound.nodup_ids hw) hjob
  refine ⟨hconcluded.sound, h.ordered, h.limit_pos, finished, under, hparts, hfinished, ?_⟩
  refine hunder.imp fun t slot hslot => ?_
  cases hslot with
  | waiting howes =>
      exact .waiting (howes.answer h.sound hconcluded.pending hconcluded.answers
        (Judgement.concludes _))
  | settled hlegit => exact .settled hlegit

/-- An answer that is noted answers the task of its slot. -/
lemma Carries.note (h : f.Carries verdict tasks) {before after : List Slot} {ticket : Ticket}
    {outcome : Outcome} (hslots : f.slots = before ++ .waiting ticket :: after)
    (hanswer : f.pool.answer? ticket = some outcome) :
    Carries { f with slots := before ++ .settled outcome :: after } verdict tasks := by
  obtain ⟨finished, under, hparts, hfinished, hunder⟩ := h.parts
  rw [hslots] at hunder
  obtain ⟨first, t, last, rfl, hfirst, hslot, hlast⟩ := exists_split_of_forall₂ hunder
  refine ⟨h.sound, h.ordered, h.limit_pos, finished, _, hparts, hfinished, ?_⟩
  cases hslot with
  | waiting howes =>
      exact List.rel_append hfirst (.cons (.settled (howes.answers h.sound hanswer)) hlast)

/-- The oldest slot has the oldest task without a collected outcome. -/
lemma Carries.free (h : f.Carries verdict tasks) {outcome : Outcome} {rest : List Slot}
    (hslots : f.slots = .settled outcome :: rest) :
    Carries { f with slots := rest, collected := outcome :: f.collected } verdict tasks := by
  obtain ⟨finished, under, hparts, hfinished, hunder⟩ := h.parts
  rw [hslots] at hunder
  cases hunder with
  | @cons t _ under _ hslot hrest =>
      cases hslot with
      | settled hlegit =>
          refine ⟨h.sound, h.ordered, h.limit_pos, finished ++ [t], under, ?_, ?_, hrest⟩
          · rw [hparts, List.append_assoc]
            rfl
          · rw [outcomes, List.reverse_cons]
            exact List.rel_append hfinished (.cons hlegit .nil)

/-- **In any order** of steps, a flight carries the tasks with which it started. -/
lemma Carries.steps (h : f.Carries verdict tasks) (hsteps : Steps verdict f f') :
    f'.Carries verdict tasks := by
  induction hsteps with
  | refl => exact h
  | tail _ hstep ih =>
      cases hstep with
      | submit hrest _ => exact ih.submitNext hrest
      | conclude hw hjob => exact ih.conclude hw hjob
      | note hslots hanswer => exact ih.note hslots hanswer
      | free hslots => exact ih.free hslots

end

/-! ## The flight that runs by itself -/

lemma steps_fillWith (verdict : Task → Verdict) {waiting : List Task}
    (h : f.remaining = waiting) : Steps verdict f (f.fillWith waiting) := by
  induction waiting generalizing f with
  | nil => exact .refl
  | cons task rest ih =>
      rw [Flight.fillWith]
      split_ifs with hslot
      · refine .head (.submit h hslot) (ih ?_)
        rw [submitNext]
        split <;> rfl
      · exact .refl

/-- The answers to the slots after the first ones are noted. -/
lemma steps_settle_after (verdict : Task → Verdict) (before : List Slot) {slots : List Slot}
    (h : f.slots = before ++ slots) :
    Steps verdict f { f with slots := before ++ slots.map (Slot.settle f.pool) } := by
  induction slots generalizing f before with
  | nil =>
      rw [List.map_nil, ← h]
  | cons slot slots ih =>
      -- What becomes of the next slot, and then of the others.
      have hnext : Steps verdict f { f with slots := before ++ slot.settle f.pool :: slots } := by
        cases slot with
        | settled outcome => rw [Slot.settle, ← h]
        | waiting ticket =>
            rw [Slot.settle]
            cases hanswer : f.pool.answer? ticket with
            | none => rw [← h]
            | some outcome => exact .single (.note h hanswer)
      have hrest := ih (f := { f with slots := before ++ slot.settle f.pool :: slots })
        (before ++ [slot.settle f.pool]) (by simp)
      simpa using hnext.trans hrest

lemma steps_settle (verdict : Task → Verdict) (f : Flight) : Steps verdict f f.settle :=
  steps_settle_after verdict [] rfl

/-- The settled slots at the front are freed one after the other. -/
lemma steps_free (verdict : Task → Verdict) {outcomes : List Outcome} {rest : List Slot}
    (h : f.slots = outcomes.map .settled ++ rest) :
    Steps verdict f { f with slots := rest, collected := outcomes.reverse ++ f.collected } := by
  induction outcomes generalizing f with
  | nil =>
      obtain rfl : f.slots = rest := h
      exact .refl
  | cons outcome outcomes ih =>
      have hrest := ih (f := { f with
        slots := outcomes.map .settled ++ rest, collected := outcome :: f.collected }) rfl
      simpa using hrest.head (.free h)

lemma steps_collect (verdict : Task → Verdict) (hordered : f.ordered = true) :
    Steps verdict f f.collect := by
  rw [collect, if_pos hordered]
  exact steps_free verdict (splitFront_spec f.slots).1

/-- The settled slots after the first ones are freed one after the other. -/
lemma moves_free_after (verdict : Task → Verdict) (hordered : f.ordered = false)
    (before : List Slot) {slots : List Slot} (h : f.slots = before ++ slots) :
    Moves verdict f { f with
      slots := before ++ slots.filter (·.outcome?.isNone)
      collected := (slots.filterMap Slot.outcome?).reverse ++ f.collected } := by
  induction slots generalizing f before with
  | nil =>
      have hsame : f = { f with slots := before ++ [], collected := [] ++ f.collected } := by
        rw [← h]
        rfl
      exact hsame ▸ .refl
  | cons slot slots ih =>
      cases slot with
      | waiting ticket =>
          have hrest := ih hordered (before ++ [.waiting ticket]) (by simpa using h)
          rw [List.append_assoc, List.singleton_append] at hrest
          rw [List.filter_cons_of_pos rfl, List.filterMap_cons_none rfl]
          exact hrest
      | settled outcome =>
          have hfreed : Move verdict f { f with
              slots := before ++ slots, collected := outcome :: f.collected } :=
            .free h fun htrue => by simp [hordered] at htrue
          have hrest := ih (f := { f with
            slots := before ++ slots, collected := outcome :: f.collected }) hordered before rfl
          have hout : (Slot.settled outcome :: slots).filterMap Slot.outcome?
              = outcome :: slots.filterMap Slot.outcome? := rfl
          rw [List.filter_cons_of_neg Bool.false_ne_true, hout, List.reverse_cons,
            List.append_assoc, List.singleton_append]
          exact hrest.head hfreed

lemma moves_collect (verdict : Task → Verdict) (f : Flight) : Moves verdict f f.collect := by
  cases hordered : f.ordered with
  | true => exact (steps_collect verdict hordered).moves
  | false =>
      have hfree := moves_free_after verdict hordered [] (List.nil_append f.slots).symm
      rw [collect, if_neg (by simp [hordered])]
      exact hfree

lemma moves_round (verdict : Task → Verdict) (f : Flight) :
    Moves verdict f f.settle.collect.fill :=
  (steps_settle verdict f).moves.trans <|
    (moves_collect verdict f.settle).trans (steps_fillWith verdict rfl).moves

lemma moves_pump (verdict : Task → Verdict) (n : Nat) (f : Flight) :
    Moves verdict f (f.pump n) := by
  induction n generalizing f with
  | zero => exact .refl
  | succ n ih =>
      have hround := moves_round verdict f
      rw [Flight.pump]
      split_ifs
      · exact hround.trans (ih _)
      · exact hround

lemma moves_advance (verdict : Task → Verdict) (n : Nat) (f : Flight) :
    Moves verdict f (f.advance (fun t => some (verdict t)) n) := by
  induction n generalizing f with
  | zero => exact .refl
  | succ n ih =>
      rw [Flight.advance]
      cases hstep : f.pool.advance? (fun t => some (verdict t)) with
      | none => exact .refl
      | some p' =>
          obtain ⟨w, hw, j, v, hjob, hv, rfl⟩ := Pool.exists_of_advance? hstep
          cases hv
          exact .head (.conclude hw hjob) ((moves_pump verdict _ _).trans (ih _))

/-- What a flight that runs by itself does after its first round. -/
lemma moves_finish_of_round (verdict : Task → Verdict) (f : Flight) :
    Moves verdict f.settle.collect.fill (f.finish fun t => some (verdict t)) := by
  refine .trans ?_ (moves_advance verdict _ f.refill)
  rw [refill, Flight.pump]
  split_ifs
  · exact moves_pump verdict _ _
  · exact .refl

/-- A flight that runs by itself takes one of the orders. -/
lemma moves_finish (verdict : Task → Verdict) (f : Flight) :
    Moves verdict f (f.finish fun t => some (verdict t)) :=
  (moves_round verdict f).trans (moves_finish_of_round verdict f)

lemma steps_round (verdict : Task → Verdict) (hordered : f.ordered = true) :
    Steps verdict f f.settle.collect.fill :=
  (moves_round verdict f).steps hordered

lemma steps_finish_of_round (verdict : Task → Verdict) (hordered : f.ordered = true) :
    Steps verdict f.settle.collect.fill (f.finish fun t => some (verdict t)) :=
  (moves_finish_of_round verdict f).steps ((moves_round verdict f).ordered.trans hordered)

lemma steps_finish (verdict : Task → Verdict) (hordered : f.ordered = true) :
    Steps verdict f (f.finish fun t => some (verdict t)) :=
  (moves_finish verdict f).steps hordered

/-- A flight in order that runs by itself comes to its end. -/
lemma Carries.finish {tasks : List Task} (h : f.Carries verdict tasks) :
    (f.finish fun t => some (verdict t)).Carries verdict tasks
      ∧ (f.finish fun t => some (verdict t)).Ended := by
  have hcarries := h.steps (steps_finish verdict h.ordered)
  obtain ⟨hfull, hnone⟩ := finish_left h.sound
  exact ⟨hcarries, hcarries.ended hfull hnone⟩

end Flight

namespace Pool

/-- **Bounded execution.**  Each task gets one outcome, at its own place, which answers that very
task; and the pool stays sound. -/
theorem executeWithLimit_spec {p : Pool} (h : p.Sound) (verdict : Task → Verdict) (limit : Nat)
    (tasks : List Task) :
    (p.executeWithLimit (fun t => some (verdict t)) limit tasks).1.Sound
      ∧ List.Forall₂ (Answers verdict) tasks
        (p.executeWithLimit (fun t => some (verdict t)) limit tasks).2 := by
  have hlimit : 0 < max limit 1 := Nat.lt_of_lt_of_le Nat.one_pos (Nat.le_max_right _ _)
  obtain ⟨hcarries, hended⟩ := (Flight.carries_start h verdict hlimit tasks).finish
  exact ⟨hcarries.sound, hcarries.answers hended⟩

end Pool
end Rebuild
