import Mathlib.Data.List.DropRight
import Mathlib.Tactic.Common
import Rebuild.Proofs.Path.Table
import Rebuild.Watch.Debounce

/-!
# What the debouncing machine does with changes

The machine is told of changes, of its timer and of the end of passes, in any order.  No change is
lost on the way to a pass, and none goes to two passes.

* **Sets.**  `ChangeSet.Collects` says which set a list of changes makes: each path that was
  reported, in whatever spelling, with its last kind.
* **Invariant.**  `Keeps` is kept by every call (`Keeps.answer`): the machine holds what was
  reported and not taken into a pass.
* **Endpoint.**  `no_change_lost` cuts a sequence of calls at those that start a pass.
-/

namespace Rebuild

/-! ## Sets of changes -/

/-- The kind that was reported last for a path, in whatever spelling. -/
def lastKind (changes : List Change) (p : Path) : Option ChangeKind :=
  (changes.reverse.find? fun c => c.path.same p).map Change.kind

/-- The set has the paths that were reported, each with its last kind, and no others. -/
def ChangeSet.Collects (set : ChangeSet) (changes : List Change) : Prop :=
  ∀ p : Path, set[p]? = lastKind changes p

lemma lastKind_append (changes : List Change) (c : Change) (p : Path) :
    lastKind (changes ++ [c]) p
      = if compare c.path p = .eq then some c.kind else lastKind changes p := by
  have hsame : c.path.same p = true ↔ compare c.path p = .eq := by
    rw [Path.compare_eq_iff]
    exact beq_iff_eq
  rw [lastKind, List.reverse_append, List.reverse_singleton, List.singleton_append,
    List.find?_cons]
  by_cases h : compare c.path p = .eq
  · rw [if_pos h, hsame.2 h]
    rfl
  · rw [if_neg h, Bool.eq_false_iff.2 fun hp => h (hsame.1 hp)]
    rfl

namespace ChangeSet.Collects

variable {set : ChangeSet} {changes : List Change}

lemma empty : Collects ∅ [] := by
  intro p
  rw [Std.TreeMap.getElem?_emptyc]
  rfl

lemma put (h : Collects set changes) (c : Change) :
    Collects (PathMap.put set c.path c.kind) (changes ++ [c]) := by
  intro p
  rw [PathMap.getElem?_put, lastKind_append, h p]

lemma isEmpty_iff (h : Collects set changes) : set.isEmpty = true ↔ changes = [] := by
  rw [Std.TreeMap.isEmpty_iff_forall_not_mem]
  constructor
  · intro hnone
    rcases List.eq_nil_or_concat changes with hnil | ⟨before, c, rfl⟩
    · exact hnil
    · have hlast := h c.path
      rw [List.concat_eq_append, lastKind_append, if_pos (Path.compare_self c.path)] at hlast
      exact absurd (Std.TreeMap.mem_iff_isSome_getElem?.2 (by simp [hlast])) (hnone c.path)
  · rintro rfl p hp
    rw [Std.TreeMap.mem_iff_isSome_getElem?, h p] at hp
    cases hp

lemma mem (h : Collects set changes) {c : Change} (hc : c ∈ changes) : c.path ∈ set := by
  rw [Std.TreeMap.mem_iff_isSome_getElem?, h c.path, lastKind, Option.isSome_map,
    List.find?_isSome]
  exact ⟨c, List.mem_reverse.2 hc, beq_self_eq_true _⟩

end ChangeSet.Collects

/-! ## Calls -/

/-- The action starts a pass. -/
def Action.isCompile : Action → Bool
  | .compile _ => true
  | _ => false

namespace Debounce

/-- What the machine is told. -/
inductive Call where
  | change (c : Change)
  | timer
  | finished

/-- The change that a call tells of, if it does. -/
def Call.reported : Call → List Change
  | change c => [c]
  | _ => []

/-- The machine after a call, and what is to be done then. -/
def answer (d : Debounce) : Call → Debounce × Action
  | .change c => d.change c
  | .timer => d.timer
  | .finished => d.finished

/-- The machine after calls. -/
def after (d : Debounce) (calls : List Call) : Debounce :=
  calls.foldl (fun d call => (d.answer call).1) d

/-- The calls, each with what was to be done then. -/
def told : Debounce → List Call → List (Call × Action)
  | _, [] => []
  | d, call :: calls => (call, (d.answer call).2) :: told (d.answer call).1 calls

/-- The changes that were reported after the last call that started a pass. -/
def unserved (told : List (Call × Action)) : List Change :=
  (told.rtakeWhile fun e => !e.2.isCompile).flatMap fun e => e.1.reported

lemma told_append (d : Debounce) (calls more : List Call) :
    d.told (calls ++ more) = d.told calls ++ (d.after calls).told more := by
  induction calls generalizing d with
  | nil => rfl
  | cons call calls ih => exact congrArg (_ :: ·) (ih (d.answer call).1)

lemma after_append (d : Debounce) (calls more : List Call) :
    d.after (calls ++ more) = (d.after calls).after more := List.foldl_append

lemma exists_of_told_eq_append {d : Debounce} {calls : List Call}
    {first rest : List (Call × Action)} (h : d.told calls = first ++ rest) :
    ∃ before after', calls = before ++ after' ∧ d.told before = first
      ∧ (d.after before).told after' = rest := by
  induction first generalizing d calls with
  | nil => exact ⟨[], calls, rfl, rfl, h⟩
  | cons e first ih =>
      cases calls with
      | nil => cases h
      | cons call calls =>
          obtain ⟨he, htail⟩ := List.cons.inj h
          obtain ⟨before, after', rfl, hbefore, hafter⟩ := ih htail
          refine ⟨call :: before, after', rfl, ?_, hafter⟩
          rw [told, he, hbefore]

lemma unserved_append (e : Call × Action) (earlier : List (Call × Action)) :
    unserved (earlier ++ [e])
      = if e.2.isCompile then [] else unserved earlier ++ e.1.reported := by
  rw [unserved, List.rtakeWhile_concat]
  cases e.2.isCompile with
  | true => rfl
  | false => simp [unserved]

/-! ## The invariant -/

/-- An action takes all changes into a pass, or leaves them. -/
inductive Takes : Action → List Change → List Change → Prop where
  | pass {set : ChangeSet} {changes : List Change} (hne : changes ≠ [])
      (h : set.Collects changes) : Takes (.compile set) changes []
  | rest {a : Action} (changes : List Change) (h : a.isCompile = false) : Takes a changes changes

lemma Takes.left_eq {a : Action} {changes left : List Change} (h : Takes a changes left) :
    left = if a.isCompile then [] else changes := by
  cases h with
  | pass => rfl
  | rest _ hrest => rw [hrest, if_neg (by simp)]

lemma Takes.of_compile {set : ChangeSet} {changes left : List Change}
    (h : Takes (.compile set) changes left) : changes ≠ [] ∧ set.Collects changes := by
  cases h with
  | pass hne hset => exact ⟨hne, hset⟩
  | rest _ hrest => cases hrest

/-- The machine holds these changes, and waits for its timer only with some. -/
structure Keeps (d : Debounce) (changes : List Change) : Prop where
  held : d.held.Collects changes
  waiting : ∀ pending, d = .accumulating pending → changes ≠ []

lemma keeps_idle : Keeps .idle [] where
  held := .empty
  waiting _ h := by cases h

lemma keeps_compiling : Keeps (.compiling ∅) [] where
  held := .empty
  waiting _ h := by cases h

variable {d : Debounce} {changes : List Change}

lemma Keeps.eq_nil (h : d.Keeps changes) (hidle : d = .idle) : changes = [] := by
  subst hidle
  exact h.held.isEmpty_iff.1 Std.TreeMap.isEmpty_emptyc

lemma Keeps.change (h : d.Keeps changes) (c : Change) :
    (d.change c).1.Keeps (changes ++ [c]) ∧ (d.change c).2.isCompile = false := by
  have hne : changes ++ [c] ≠ [] := by simp
  cases d with
  | idle =>
      rw [h.eq_nil rfl] at hne ⊢
      exact ⟨⟨ChangeSet.Collects.empty.put c, fun _ _ => hne⟩, rfl⟩
  | accumulating pending => exact ⟨⟨h.held.put c, fun _ _ => hne⟩, rfl⟩
  | compiling buffered => exact ⟨⟨h.held.put c, fun _ _ => hne⟩, rfl⟩

lemma Keeps.timer (h : d.Keeps changes) :
    ∃ left, Takes d.timer.2 changes left ∧ d.timer.1.Keeps left := by
  cases d with
  | idle => exact ⟨changes, .rest _ rfl, h⟩
  | accumulating pending => exact ⟨[], .pass (h.waiting pending rfl) h.held, keeps_compiling⟩
  | compiling buffered => exact ⟨changes, .rest _ rfl, h⟩

lemma Keeps.finished (h : d.Keeps changes) :
    ∃ left, Takes d.finished.2 changes left ∧ d.finished.1.Keeps left := by
  cases d with
  | idle => exact ⟨changes, .rest _ rfl, h⟩
  | accumulating pending => exact ⟨changes, .rest _ rfl, h⟩
  | compiling buffered =>
      have hempty : buffered.isEmpty = true ↔ changes = [] := h.held.isEmpty_iff
      rw [Debounce.finished]
      by_cases hbuffered : buffered.isEmpty = true
      · rw [if_pos hbuffered, hempty.1 hbuffered]
        exact ⟨[], .rest _ rfl, keeps_idle⟩
      · rw [if_neg hbuffered]
        exact ⟨[], .pass (fun hnil => hbuffered (hempty.2 hnil)) h.held, keeps_compiling⟩

/-- **Every call keeps the invariant**, with the reported change among the others. -/
lemma Keeps.answer (h : d.Keeps changes) (call : Call) :
    ∃ left, Takes (d.answer call).2 (changes ++ call.reported) left
      ∧ (d.answer call).1.Keeps left := by
  cases call with
  | change c => exact ⟨changes ++ [c], .rest _ (h.change c).2, (h.change c).1⟩
  | timer =>
      show ∃ left, Takes d.timer.2 (changes ++ []) left ∧ d.timer.1.Keeps left
      rw [List.append_nil]
      exact h.timer
  | finished =>
      show ∃ left, Takes d.finished.2 (changes ++ []) left ∧ d.finished.1.Keeps left
      rw [List.append_nil]
      exact h.finished

/-- The machine holds what was reported since a pass was started last. -/
lemma keeps_unserved (calls : List Call) :
    (after .idle calls).Keeps (unserved (told .idle calls)) := by
  induction calls using List.reverseRecOn with
  | nil => exact keeps_idle
  | append_singleton calls call ih =>
      obtain ⟨left, htakes, hkeeps⟩ := ih.answer call
      have hleft : left = unserved (told .idle (calls ++ [call])) := by
        rw [told_append, told, told, unserved_append]
        exact htakes.left_eq
      rw [after_append, ← hleft]
      exact hkeeps

/-! ## While a pass runs -/

lemma answer_compiling (buffered : ChangeSet) {call : Call} (h : call ≠ .finished) :
    ((compiling buffered).answer call).2.isCompile = false
      ∧ ∃ buffered', ((compiling buffered).answer call).1 = .compiling buffered'
        ∧ (buffered'.isEmpty = true ↔ buffered.isEmpty = true ∧ call.reported = []) := by
  cases call with
  | change c =>
      have hput : (PathMap.put buffered c.path c.kind).isEmpty = false :=
        Std.TreeMap.isEmpty_insert
      exact ⟨rfl, _, rfl, by simp [hput, Call.reported]⟩
  | timer => exact ⟨rfl, buffered, rfl, by simp [Call.reported]⟩
  | finished => exact absurd rfl h

/-- Until the pass is over no other starts, and the machine collects what comes. -/
lemma told_compiling {calls : List Call} (h : ∀ call ∈ calls, call ≠ .finished)
    (buffered : ChangeSet) : (∀ e ∈ told (.compiling buffered) calls, e.2.isCompile = false)
      ∧ ∃ buffered', after (.compiling buffered) calls = .compiling buffered'
        ∧ (buffered'.isEmpty = true
          ↔ buffered.isEmpty = true ∧ ∀ call ∈ calls, call.reported = []) := by
  -- The buffer is the state of the machine until then, so it is general in the induction.
  induction calls generalizing buffered with
  | nil => exact ⟨by simp [told], buffered, rfl, by simp⟩
  | cons call calls ih =>
      obtain ⟨hcall, hcalls⟩ := List.forall_mem_cons.1 h
      obtain ⟨hrest, between, hbetween, hempty⟩ := answer_compiling buffered hcall
      obtain ⟨hall, last, hlast, hlast_empty⟩ := ih hcalls between
      refine ⟨?_, last, ?_, ?_⟩
      · rw [told, hbetween]
        exact List.forall_mem_cons.2 ⟨hrest, hall⟩
      · rw [← hlast, ← hbetween]
        rfl
      · rw [hlast_empty, hempty, List.forall_mem_cons, and_assoc]

lemma map_fst_told (d : Debounce) (calls : List Call) : (d.told calls).map Prod.fst = calls := by
  induction calls generalizing d with
  | nil => rfl
  | cons call calls ih => exact congrArg (call :: ·) (ih _)

lemma exists_told_iff (d : Debounce) (calls : List Call) :
    (∃ e ∈ d.told calls, e.1.reported ≠ []) ↔ ∃ call ∈ calls, call.reported ≠ [] := by
  nth_rewrite 2 [← map_fst_told d calls]
  simp only [List.mem_map, exists_exists_and_eq_and]

lemma isCompile_finished (buffered : ChangeSet) :
    ((compiling buffered).answer .finished).2.isCompile = true ↔ buffered.isEmpty = false := by
  simp only [answer, finished]
  cases buffered.isEmpty <;> simp [Action.isCompile]

/-- A call that starts a pass reports nothing and leaves the machine with nothing. -/
lemma answer_of_compile {d : Debounce} {call : Call} {set : ChangeSet}
    (h : (d.answer call).2 = .compile set) :
    (d.answer call).1 = .compiling ∅ ∧ call.reported = [] := by
  cases call with
  | change c => cases d <;> cases h
  | timer =>
      cases d with
      | accumulating pending => exact ⟨rfl, rfl⟩
      | _ => cases h
  | finished =>
      cases d with
      | compiling buffered =>
          simp only [answer, finished] at h ⊢
          split_ifs at h ⊢
          exact ⟨rfl, rfl⟩
      | _ => cases h

/-- **No change is lost, and none goes to two passes.**  A pass has exactly the changes since the
pass before, and what comes later is held.  After a pass was started the end of that pass is the next
call that can start one, and does so exactly if a change came in between. -/
theorem no_change_lost (calls : List Call) :
    (∀ before call set rest, told .idle calls = before ++ (call, .compile set) :: rest →
      set.isEmpty = false ∧ set.Collects (unserved before))
    ∧ (after .idle calls).held.Collects (unserved (told .idle calls))
    ∧ (after .idle calls = .idle → unserved (told .idle calls) = [])
    ∧ ∀ before call set between rest,
      told .idle calls = before ++ (call, .compile set) :: (between ++ rest) →
      (∀ e ∈ between, e.1 ≠ .finished) →
      (∀ e ∈ between, e.2.isCompile = false)
        ∧ ∀ a later, rest = (.finished, a) :: later →
          (a.isCompile = true ↔ ∃ e ∈ between, e.1.reported ≠ []) := by
  have hkeeps := keeps_unserved calls
  refine ⟨?_, hkeeps.held, hkeeps.eq_nil, ?_⟩
  · intro before call set rest h
    obtain ⟨first, others, -, rfl, hothers⟩ := exists_of_told_eq_append h
    cases others with
    | nil => cases hothers
    | cons call' others =>
        obtain ⟨hcall, -⟩ := List.cons.inj hothers
        obtain ⟨rfl, haction⟩ := Prod.mk.inj hcall
        obtain ⟨left, htakes, -⟩ := (keeps_unserved first).answer call'
        rw [haction, (answer_of_compile haction).2, List.append_nil] at htakes
        obtain ⟨hne, hset⟩ := htakes.of_compile
        exact ⟨Bool.eq_false_iff.2 fun hempty => hne (hset.isEmpty_iff.1 hempty), hset⟩
  · intro before call set between rest h hbetween
    obtain ⟨first, others, -, -, hothers⟩ := exists_of_told_eq_append h
    cases others with
    | nil => cases hothers
    | cons call' others =>
        obtain ⟨hcall, hrest⟩ := List.cons.inj hothers
        obtain ⟨rfl, haction⟩ := Prod.mk.inj hcall
        rw [(answer_of_compile haction).1] at hrest
        obtain ⟨middle, last, -, rfl, hlast⟩ := exists_of_told_eq_append hrest
        have hmiddle : ∀ call ∈ middle, call ≠ .finished := by
          intro x hx
          rw [← map_fst_told (.compiling ∅) middle] at hx
          obtain ⟨e, he, rfl⟩ := List.mem_map.1 hx
          exact hbetween e he
        obtain ⟨hquiet, buffered, hbuffered, hempty⟩ := told_compiling hmiddle ∅
        refine ⟨hquiet, ?_⟩
        rintro a later rfl
        rw [hbuffered] at hlast
        cases last with
        | nil => cases hlast
        | cons call'' last =>
            obtain ⟨hcall'', -⟩ := List.cons.inj hlast
            obtain ⟨rfl, rfl⟩ := Prod.mk.inj hcall''
            rw [isCompile_finished, ← Bool.not_eq_true, hempty, exists_told_iff]
            simp

/-- A file that comes and goes before the timer fires is a removal for the pass, in both spellings;
what changes during the pass makes the next one. -/
theorem no_change_lost_twice : ∃ first second : ChangeSet,
    told .idle [.change ⟨.add, ⟨"x/a"⟩⟩, .change ⟨.remove, ⟨"x//a"⟩⟩, .timer,
        .change ⟨.change, ⟨"b"⟩⟩, .finished]
      = [(.change ⟨.add, ⟨"x/a"⟩⟩, .resetTimer), (.change ⟨.remove, ⟨"x//a"⟩⟩, .resetTimer),
        (.timer, .compile first), (.change ⟨.change, ⟨"b"⟩⟩, .nothing),
        (.finished, .compile second)]
    ∧ first.Collects [⟨.add, ⟨"x/a"⟩⟩, ⟨.remove, ⟨"x//a"⟩⟩]
    ∧ first[(⟨"x/a"⟩ : Path)]? = some .remove
    ∧ second.Collects [⟨.change, ⟨"b"⟩⟩] := by
  obtain ⟨hsets, -⟩ := no_change_lost [.change ⟨.add, ⟨"x/a"⟩⟩, .change ⟨.remove, ⟨"x//a"⟩⟩, .timer,
    .change ⟨.change, ⟨"b"⟩⟩, .finished]
  have hfirst := (hsets [_, _] _ _ [_, _] rfl).2
  have hsecond := (hsets [_, _, _, _] _ _ [] rfl).2
  refine ⟨_, _, rfl, hfirst, ?_, hsecond⟩
  rw [hfirst]
  decide

end Debounce
end Rebuild
