import Mathlib.Data.List.Forall2
import Mathlib.Logic.ExistsUnique
import Mathlib.Logic.Relation
import Rebuild.Proofs.Watch.Debounce
import Rebuild.Watch.Session

/-!
# Sessions keep step

A watch session has a machine, a timer and a pass that runs, and each of them is moved on its own.
Whatever arrives, in whatever order, they fit together.

* **Steps.**  `Watch.Step` is all that can arrive at a session.  A `Watch` remembers beside the
  session which changes were accepted and which passes were begun: a pass that runs stays until its
  end arrives, whatever the session thinks of it.
* **Invariant.**  `Watch.Good` is kept by every step.  Each machine state allows one state of timer
  and passes (`Fits`), and the accepted changes are divided among the passes (`Divided`).
* **Endpoint.**  `sessions_keep_step`: there is one of three phases while the session takes what
  arrives, and when it ends by itself every accepted change was in a pass that is over.
-/

namespace Rebuild

/-! ## Steps -/

/-- A pass, and the changes that it was begun for. -/
structure BegunPass where
  pass : Pass
  changes : ChangeSet

/-- A session with what has happened to it. -/
structure Watch where
  session : Session
  /-- The changes that the filter let in, in their order. -/
  accepted : List Change := []
  /-- The passes that run. -/
  flying : List BegunPass := []
  /-- The passes that are over, in their order. -/
  past : List BegunPass := []

/-- The session takes what arrives: it has not ended, and it was not stopped. -/
def Session.Awake (s : Session) : Prop := s.ended = false ∧ s.stopping = false

namespace Watch

/-- The session goes on to `s`, and where the action is to start a pass, one more runs. -/
def go (w : Watch) (s : Session) : Action → Watch
  | .compile changes =>
    { w with session := s, flying := w.flying ++ (s.running.map (BegunPass.mk · changes)).toList }
  | _ => { w with session := s }

/-- The pass among those that run is over. -/
def land (w : Watch) (before after : List BegunPass) (b : BegunPass) : Watch :=
  { w with flying := before ++ after, past := w.past ++ [b] }

/-- What can arrive.  Nothing is assumed about when it does, but that a pass is over only after it
was begun; in between anybody may change the cache. -/
inductive Step : Watch → Watch → Prop where
  | change {w : Watch} (now : Nat) (c : Change) (hawake : w.session.Awake)
      (h : w.session.filter.accepts c.path = true) :
      Step w { w.go (w.session.input now (.change c)) (w.session.machine.change c).2 with
        accepted := w.accepted ++ [c] }
  | ignored {w : Watch} (now : Nat) (c : Change) (hawake : w.session.Awake)
      (h : w.session.filter.accepts c.path = false) :
      Step w { w with session := w.session.input now (.change c) }
  | failure {w : Watch} (now : Nat) (message : String) (hawake : w.session.Awake) :
      Step w { w with session := w.session.input now (.failure message) }
  | sourceClosed {w : Watch} (hawake : w.session.Awake) :
      Step w { w with session := w.session.sourceClosed }
  | timer {w : Watch} (now : Nat) (hawake : w.session.Awake) :
      Step w (w.go (w.session.timerFired now) w.session.machine.timer.2)
  | passOver {w : Watch} {b : BegunPass} (before after : List BegunPass) (now : Nat)
      (outcome : Except BuildError CompileOutcome) (hended : w.session.ended = false)
      (h : w.flying = before ++ b :: after) :
      Step w ((w.land before after b).go (w.session.passFinished now outcome)
        (if w.session.stopping then .nothing else w.session.machine.finished.2))
  | stop {w : Watch} (hawake : w.session.Awake) : Step w { w with session := w.session.stop }
  | cache {w : Watch} (cache : Option Cache) :
      Step w { w with session := { w.session with cache } }

/-- Any number of steps. -/
abbrev Steps : Watch → Watch → Prop := Relation.ReflTransGen Step

/-! ## Division of the changes -/

/-- The accepted changes are cut into blocks, one for each pass, and a rest that is left. -/
def Divided (accepted : List Change) (passes : List BegunPass) (rest : List Change) : Prop :=
  ∃ blocks : List (List Change), accepted = blocks.flatten ++ rest
    ∧ List.Forall₂ (fun b block => block ≠ [] ∧ b.changes.Collects block) passes blocks

variable {accepted rest left : List Change} {passes : List BegunPass}

lemma Divided.accept (h : Divided accepted passes rest) (c : Change) :
    Divided (accepted ++ [c]) passes (rest ++ [c]) := by
  obtain ⟨blocks, rfl, hblocks⟩ := h
  exact ⟨blocks, List.append_assoc _ _ _, hblocks⟩

lemma Divided.begin (h : Divided accepted passes rest) {b : BegunPass} (hne : rest ≠ [])
    (hset : b.changes.Collects rest) : Divided accepted (passes ++ [b]) [] := by
  obtain ⟨blocks, rfl, hblocks⟩ := h
  refine ⟨blocks ++ [rest], by simp, List.rel_append hblocks (.cons ⟨hne, hset⟩ .nil)⟩

/-- With nothing left every change is in a pass. -/
lemma Divided.exists_pass (h : Divided accepted passes []) {c : Change} (hc : c ∈ accepted) :
    ∃ b ∈ passes, c.path ∈ b.changes := by
  obtain ⟨blocks, rfl, hblocks⟩ := h
  rw [List.append_nil] at hc
  obtain ⟨block, hblock, hcblock⟩ := List.mem_flatten.1 hc
  clear hc
  induction hblocks with
  | nil => cases hblock
  | cons hb _ ih =>
      rcases List.mem_cons.1 hblock with rfl | hblock
      · exact ⟨_, List.mem_cons_self, hb.2.mem hcblock⟩
      · obtain ⟨b, hb, hmem⟩ := ih hblock
        exact ⟨b, List.mem_cons_of_mem _ hb, hmem⟩

/-! ## The invariant -/

/-- The passes that run are those that the session knows of.  Each compiles the files that its
changes ask for, and `rest` are the changes that are in none. -/
structure Flown (w : Watch) (rest : List Change) : Prop where
  running : w.flying.map BegunPass.pass = w.session.running.toList
  files : ∀ b ∈ w.past ++ w.flying, ∃ cache,
    b.pass.files = (Session.rebuildSet cache b.changes).2
  divided : Divided w.accepted (w.past ++ w.flying) rest

/-- The state of timer and passes that goes with the state of the machine. -/
def Fits (timer : Option Nat) (flying : List BegunPass) : Debounce → Prop
  | .idle => timer = none ∧ flying = []
  | .accumulating _ => timer.isSome = true ∧ flying = []
  | .compiling _ => timer = none ∧ ∃ b, flying = [b]

/-- What holds at any point. -/
structure Good (w : Watch) : Prop where
  flown : ∃ rest, w.Flown rest ∧ (w.session.Awake → w.session.machine.Keeps rest)
    ∧ (w.session.ended = true → w.session.stopping = false → rest = [])
  ended : w.session.ended = true → w.flying = []
  fits : w.session.Awake → Fits w.session.timer w.flying w.session.machine

variable {w : Watch} {s : Session}

lemma Flown.flying_eq_nil (h : w.Flown rest) (hrunning : w.session.running = none) :
    w.flying = [] := by
  have hmap := h.running
  rw [hrunning] at hmap
  exact List.map_eq_nil_iff.1 hmap

lemma Flown.running_eq_none (h : w.Flown rest) (hflying : w.flying = []) :
    w.session.running = none := by
  have hmap := h.running
  rw [hflying] at hmap
  exact Option.toList_eq_nil_iff.1 hmap.symm

lemma Flown.flying_eq (h : w.Flown rest) {before after : List BegunPass} {b : BegunPass}
    (hflying : w.flying = before ++ b :: after) :
    w.session.running = some b.pass ∧ before = [] ∧ after = [] := by
  have hmap := h.running
  rw [hflying, List.map_append, List.map_cons] at hmap
  obtain hpass | ⟨pass, hpass⟩ := Option.eq_none_or_eq_some w.session.running
  · rw [hpass] at hmap
    exact absurd hmap (by simp)
  · rw [hpass, Option.toList_some, List.append_eq_singleton_iff] at hmap
    rcases hmap with ⟨hbefore, hafter⟩ | ⟨-, hnil⟩
    · obtain ⟨hb, hafter⟩ := List.cons.inj hafter
      exact ⟨hb ▸ hpass, List.map_eq_nil_iff.1 hbefore, List.map_eq_nil_iff.1 hafter⟩
    · cases hnil

lemma Flown.session (h : w.Flown rest) (hrunning : s.running = w.session.running) :
    Flown { w with session := s } rest :=
  ⟨h.running.trans (by rw [hrunning]), h.files, h.divided⟩

lemma Flown.accept (h : w.Flown rest) (c : Change) :
    Flown { w with accepted := w.accepted ++ [c] } (rest ++ [c]) :=
  ⟨h.running, h.files, h.divided.accept c⟩

/-- The one pass that runs is over. -/
lemma Flown.land (h : w.Flown rest) {b : BegunPass} (hflying : w.flying = [b])
    (hrunning : s.running = none) :
    Flown { w with session := s, flying := [], past := w.past ++ [b] } rest := by
  obtain ⟨-, hfiles, hdivided⟩ := h
  rw [hflying, ← List.append_nil (w.past ++ [b])] at hfiles hdivided
  exact ⟨by rw [hrunning]; rfl, hfiles, hdivided⟩

/-- A pass with the rest is the only one, and leaves nothing. -/
lemma Flown.begin (h : w.Flown rest) (hflying : w.flying = []) {set : ChangeSet} (hne : rest ≠ [])
    (hset : set.Collects rest) (now : Nat) (m : Debounce) :
    Flown (w.go (w.session.perform now (m, .compile set)) (.compile set)) [] := by
  obtain ⟨-, hfiles, hdivided⟩ := h
  rw [hflying, List.append_nil] at hfiles hdivided
  let b : BegunPass :=
    ⟨⟨w.session.cycle + 1, (Session.rebuildSet w.session.cache set).2, now⟩, set⟩
  have hbegun : w.go (w.session.perform now (m, .compile set)) (.compile set)
      = { w with session := w.session.perform now (m, .compile set), flying := [b] } := by
    show { w with session := _, flying := w.flying ++ [b] } = _
    rw [hflying]
    rfl
  rw [hbegun]
  refine ⟨rfl, fun b' hb' => ?_, hdivided.begin hne hset⟩
  rcases List.mem_append.1 hb' with hpast | hnew
  · exact hfiles b' hpast
  · obtain rfl := List.mem_singleton.1 hnew
    exact ⟨_, rfl⟩

lemma Good.session (h : w.Good) (hmachine : s.machine = w.session.machine)
    (htimer : s.timer = w.session.timer) (hrunning : s.running = w.session.running)
    (hended : s.ended = w.session.ended) (hstopping : s.stopping = w.session.stopping) :
    Good { w with session := s } := by
  obtain ⟨⟨rest, hflown, hkeeps, hrest⟩, hlast, hfits⟩ := h
  rw [Session.Awake, ← hmachine, ← hended, ← hstopping] at hkeeps
  rw [← hended, ← hstopping] at hrest
  rw [Session.Awake, ← hmachine, ← htimer, ← hended, ← hstopping] at hfits
  exact ⟨⟨rest, hflown.session hrunning, hkeeps, hrest⟩, fun h => hlast (hended ▸ h), hfits⟩

lemma running_checkEnd (s : Session) : s.checkEnd.running = s.running := by
  rw [Session.checkEnd]
  split_ifs <;> rfl

lemma session_go (w : Watch) (s : Session) (a : Action) : (w.go s a).session = s := by
  cases a <;> rfl

lemma go_rest (w : Watch) (s : Session) {a : Action} (h : a.isCompile = false) :
    w.go s a = { w with session := s } := by
  cases a with
  | compile changes => cases h
  | nothing => rfl
  | resetTimer => rfl

lemma go_checkEnd (w : Watch) (s : Session) (a : Action) :
    w.go s.checkEnd a = { w.go s a with session := s.checkEnd } := by
  cases a with
  | compile changes => rw [go, running_checkEnd]; rfl
  | nothing => rfl
  | resetTimer => rfl

/-- A session that ends by itself has taken all changes into passes. -/
lemma Good.checkEnd (h : w.Good) (hawake : w.session.Awake) :
    Good { w with session := w.session.checkEnd } := by
  rw [Session.checkEnd]
  split_ifs with hend
  · rw [Bool.and_eq_true, Bool.and_eq_true] at hend
    obtain ⟨⟨-, htimer⟩, hrunning⟩ := hend
    obtain ⟨rest, hflown, hkeeps, -⟩ := h.flown
    have hflying : w.flying = [] := hflown.flying_eq_nil (Option.isNone_iff_eq_none.1 hrunning)
    -- Without a timer and a pass the machine is idle, and an idle machine holds nothing.
    have hidle : w.session.machine = .idle := by
      have hfits := h.fits hawake
      cases hm : w.session.machine with
      | idle => rfl
      | accumulating pending =>
          rw [hm, Option.isNone_iff_eq_none.1 htimer] at hfits
          cases hfits.1
      | compiling buffered =>
          rw [hm, hflying] at hfits
          obtain ⟨-, b, hb⟩ := hfits
          cases hb
    exact {
      flown := ⟨rest, hflown.session rfl, fun hawake' => (by cases hawake'.1),
        fun _ _ => (hkeeps hawake).eq_nil hidle⟩
      ended := fun _ => hflying
      fits := fun hawake' => by cases hawake'.1 }
  · exact h

/-- A session that was stopped ends when no pass runs. -/
lemma Flown.finish (h : w.Flown rest) (hrunning : w.session.running = none)
    (hstopping : w.session.stopping = true) : Good { w with session := w.session.finish } where
  flown := ⟨rest, h.session rfl, fun hawake => (by cases hawake.1),
    fun _ hstop => absurd (hstopping.symm.trans hstop) (by simp)⟩
  ended _ := h.flying_eq_nil hrunning
  fits hawake := by cases hawake.1

lemma awake_perform (h : s.Awake) (now : Nat) (next : Debounce × Action) :
    (s.perform now next).Awake := by
  rcases next with ⟨m, a⟩
  cases a <;> exact h

/-- The session does what its machine says.  Timer and passes are to fit afterwards, and a pass may
only start while none runs. -/
lemma Flown.perform (h : w.Flown rest) {next : Debounce × Action} (now : Nat)
    (hawake : w.session.Awake) (htakes : Debounce.Takes next.2 rest left)
    (hkeeps : next.1.Keeps left) (hfree : next.2.isCompile = true → w.flying = [])
    (hfits : Fits (w.session.perform now next).timer
      (w.go (w.session.perform now next) next.2).flying next.1) :
    Good (w.go (w.session.perform now next).checkEnd next.2) := by
  have hsession := session_go w (w.session.perform now next) next.2
  have hawake' : (w.go (w.session.perform now next) next.2).session.Awake := by
    rw [hsession]
    exact awake_perform hawake now next
  have hflown : Flown (w.go (w.session.perform now next) next.2) left := by
    rcases next with ⟨m, a⟩
    cases htakes with
    | pass hne hset => exact h.begin (hfree rfl) hne hset now m
    | rest _ hrest =>
        rw [go_rest _ _ hrest]
        refine h.session ?_
        cases a with
        | compile changes => cases hrest
        | nothing => rfl
        | resetTimer => rfl
  have hmachine : (w.session.perform now next).machine = next.1 := by
    rcases next with ⟨m, a⟩
    cases a <;> rfl
  have hgood : Good (w.go (w.session.perform now next) next.2) := by
    refine ⟨⟨left, hflown, fun _ => ?_, fun hended => ?_⟩, fun hended => ?_, fun _ => ?_⟩
    · rwa [hsession, hmachine]
    · exact absurd (hawake'.1.symm.trans hended) Bool.false_ne_true
    · exact absurd (hawake'.1.symm.trans hended) Bool.false_ne_true
    · rwa [hsession, hmachine]
  have hcheck := hgood.checkEnd hawake'
  rw [hsession] at hcheck
  rwa [go_checkEnd]

/-! ## One step -/

lemma Good.change (h : w.Good) (now : Nat) (c : Change) (hawake : w.session.Awake)
    (haccepts : w.session.filter.accepts c.path = true) :
    Good { w.go (w.session.input now (.change c)) (w.session.machine.change c).2 with
      accepted := w.accepted ++ [c] } := by
  obtain ⟨rest, hflown, hkeeps, -⟩ := h.flown
  obtain ⟨hkeeps, hrest⟩ := (hkeeps hawake).change c
  have hfits := h.fits hawake
  let told : Watch := { w with
    session := w.session.tell (.change c.kind c.path), accepted := w.accepted ++ [c] }
  have htold : told.Flown (rest ++ [c]) := (hflown.accept c).session rfl
  have hgood : Good (told.go (told.session.perform now (w.session.machine.change c)).checkEnd
      (w.session.machine.change c).2) := by
    refine htold.perform now hawake (.rest _ hrest) hkeeps
      (fun hcompile => by rw [hrest] at hcompile; cases hcompile) ?_
    rw [go_rest _ _ hrest]
    cases hm : w.session.machine with
    | idle => rw [hm] at hfits; exact ⟨rfl, hfits.2⟩
    | accumulating pending => rw [hm] at hfits; exact ⟨rfl, hfits.2⟩
    | compiling buffered => rw [hm] at hfits; exact hfits
  rw [Session.input, if_pos haccepts, go_rest _ _ hrest]
  rwa [go_rest _ _ hrest] at hgood

lemma Good.timer (h : w.Good) (now : Nat) (hawake : w.session.Awake) :
    Good (w.go (w.session.timerFired now) w.session.machine.timer.2) := by
  obtain ⟨rest, hflown, hkeeps, -⟩ := h.flown
  obtain ⟨left, htakes, hkeeps⟩ := (hkeeps hawake).timer
  have hfits := h.fits hawake
  have hunarmed : Flown { w with session := { w.session with timer := none } } rest :=
    hflown.session rfl
  refine hunarmed.perform now hawake htakes hkeeps ?_ ?_
  · cases hm : w.session.machine with
    | accumulating pending => rw [hm] at hfits; exact fun _ => hfits.2
    | idle => exact fun hcompile => by cases hcompile
    | compiling buffered => exact fun hcompile => by cases hcompile
  · cases hm : w.session.machine with
    | idle => rw [hm] at hfits; exact ⟨rfl, hfits.2⟩
    | accumulating pending =>
        rw [hm] at hfits
        exact ⟨rfl, _, congrArg (· ++ _) hfits.2⟩
    | compiling buffered => rw [hm] at hfits; exact ⟨rfl, hfits.2⟩

lemma passFinished_eq {pass : Pass} (h : s.running = some pass) (now : Nat)
    (outcome : Except BuildError CompileOutcome) : ∃ e, s.passFinished now outcome
      = if s.stopping then ({ s with running := none }.tell e).finish
        else (({ s with running := none }.tell e).perform now s.machine.finished).checkEnd := by
  rw [Session.passFinished, h]
  cases outcome with
  | ok outcome => exact ⟨_, rfl⟩
  | error e => exact ⟨_, rfl⟩

lemma Good.passOver (h : w.Good) {before after : List BegunPass} {b : BegunPass} (now : Nat)
    (outcome : Except BuildError CompileOutcome) (hended : w.session.ended = false)
    (hflying : w.flying = before ++ b :: after) :
    Good ((w.land before after b).go (w.session.passFinished now outcome)
      (if w.session.stopping then .nothing else w.session.machine.finished.2)) := by
  obtain ⟨rest, hflown, hkeeps, -⟩ := h.flown
  obtain ⟨hrunning, rfl, rfl⟩ := hflown.flying_eq hflying
  rw [List.nil_append] at hflying
  obtain ⟨e, he⟩ := passFinished_eq hrunning now outcome
  have hlanded : Flown { w with
      session := { w.session with running := none }.tell e
      flying := []
      past := w.past ++ [b] } rest := hflown.land hflying rfl
  rw [he]
  -- A session that was stopped does not ask its machine any more.
  by_cases hstopping : w.session.stopping = true
  · rw [if_pos hstopping, if_pos hstopping]
    exact hlanded.finish rfl hstopping
  · rw [if_neg hstopping, if_neg hstopping]
    have hawake : w.session.Awake := ⟨hended, Bool.eq_false_iff.2 hstopping⟩
    have hfits := h.fits hawake
    obtain ⟨left, htakes, hkeeps⟩ := (hkeeps hawake).finished
    have hgood := hlanded.perform now hawake htakes hkeeps (fun _ => rfl) (by
      cases hm : w.session.machine with
      | idle =>
          rw [hm, hflying] at hfits
          cases hfits.2
      | accumulating pending =>
          rw [hm, hflying] at hfits
          cases hfits.2
      | compiling buffered =>
          rw [hm] at hfits
          rw [Debounce.finished]
          split_ifs
          · exact ⟨hfits.1, rfl⟩
          · exact ⟨hfits.1, _, rfl⟩)
    cases hm : w.session.machine.finished with
    | mk m a =>
      rw [hm] at hgood
      cases a <;> exact hgood

lemma Good.stop (h : w.Good) (hawake : w.session.Awake) :
    Good { w with session := w.session.stop } := by
  obtain ⟨rest, hflown, -, -⟩ := h.flown
  have hstopped : Flown { w with session := { w.session with stopping := true } } rest :=
    hflown.session rfl
  rw [Session.stop]
  -- Only a pass that runs keeps a stopped session from its end.
  split_ifs with hnone
  · exact hstopped.finish (Option.isNone_iff_eq_none.1 hnone) rfl
  · exact {
      flown := ⟨rest, hstopped.session rfl, fun hawake' => (by cases hawake'.2),
        fun _ hstop => (by cases hstop)⟩
      ended := fun hended => absurd (hawake.1.symm.trans hended) Bool.false_ne_true
      fits := fun hawake' => by cases hawake'.2 }

/-- **Every step keeps the invariant.** -/
lemma Good.step (h : w.Good) {w' : Watch} (hstep : Step w w') : w'.Good := by
  cases hstep with
  | change now c hawake haccepts => exact h.change now c hawake haccepts
  | ignored now c hawake hrefuses =>
      rw [Session.input, if_neg (by rw [hrefuses]; exact Bool.false_ne_true)]
      exact h.checkEnd hawake
  | failure now message hawake =>
      have htold : Good { w with session := w.session.tell (.error message) } :=
        h.session rfl rfl rfl rfl rfl
      exact htold.checkEnd hawake
  | sourceClosed hawake =>
      have hclosed : Good { w with session := { w.session with sourceOpen := false } } :=
        h.session rfl rfl rfl rfl rfl
      exact hclosed.checkEnd hawake
  | timer now hawake => exact h.timer now hawake
  | passOver before after now outcome hended hflying =>
      exact h.passOver now outcome hended hflying
  | stop hawake => exact h.stop hawake
  | cache cache => exact h.session rfl rfl rfl rfl rfl

lemma Good.steps (h : w.Good) {w' : Watch} (hsteps : Steps w w') : w'.Good := by
  induction hsteps with
  | refl => exact h
  | tail _ hstep ih => exact ih.step hstep

/-! ## Sessions from their start on -/

/-- What a session is in the middle of. -/
inductive Phase where
  /-- Nothing has changed. -/
  | resting
  /-- Changes wait for the timer. -/
  | waiting
  /-- A pass runs. -/
  | working

/-- Machine, timer and passes show the phase. -/
def Shows (w : Watch) : Phase → Prop
  | .resting => w.session.machine = .idle ∧ w.session.timer = none
    ∧ w.session.running = none ∧ w.flying = []
  | .waiting => (∃ pending, w.session.machine = .accumulating pending)
    ∧ w.session.timer.isSome = true ∧ w.session.running = none ∧ w.flying = []
  | .working => (∃ buffered, w.session.machine = .compiling buffered) ∧ w.session.timer = none
    ∧ ∃ b, w.session.running = some b.pass ∧ w.flying = [b]

lemma Good.existsUnique_shows (h : w.Good) (hawake : w.session.Awake) :
    ∃! phase, w.Shows phase := by
  have hfits := h.fits hawake
  obtain ⟨rest, hflown, -, -⟩ := h.flown
  cases hm : w.session.machine with
  | idle =>
      rw [hm] at hfits
      refine ⟨.resting, ⟨hm, hfits.1, hflown.running_eq_none hfits.2, hfits.2⟩, ?_⟩
      rintro (_ | _ | _) hother
      · rfl
      · obtain ⟨⟨_, hother⟩, -⟩ := hother
        cases hm.symm.trans hother
      · obtain ⟨⟨_, hother⟩, -⟩ := hother
        cases hm.symm.trans hother
  | accumulating pending =>
      rw [hm] at hfits
      refine ⟨.waiting, ⟨⟨_, hm⟩, hfits.1, hflown.running_eq_none hfits.2, hfits.2⟩, ?_⟩
      rintro (_ | _ | _) hother
      · cases hm.symm.trans hother.1
      · rfl
      · obtain ⟨⟨_, hother⟩, -⟩ := hother
        cases hm.symm.trans hother
  | compiling buffered =>
      rw [hm] at hfits
      obtain ⟨htimer, b, hflying⟩ := hfits
      have hrunning : w.session.running = some b.pass :=
        (hflown.flying_eq (hflying.trans (List.nil_append [b]).symm)).1
      refine ⟨.working, ⟨⟨_, hm⟩, htimer, b, hrunning, hflying⟩, ?_⟩
      rintro (_ | _ | _) hother
      · cases hm.symm.trans hother.1
      · obtain ⟨⟨_, hother⟩, -⟩ := hother
        cases hm.symm.trans hother
      · rfl

lemma good_start {options : WatchOptions} {cache : Option Cache} {s : Session}
    (h : Session.start options cache = .ok s) : Good { session := s } := by
  obtain ⟨filter, -, hs⟩ : ∃ filter,
      PathFilter.ofTexts options.root options.patterns options.ignored = .ok filter
        ∧ _ = Except.ok s := by
    rw [Session.start] at h
    cases hfilter : PathFilter.ofTexts options.root options.patterns options.ignored with
    | error e => rw [hfilter] at h; cases h
    | ok filter => rw [hfilter] at h; exact ⟨filter, rfl, h⟩
  obtain rfl := Except.ok.inj hs
  exact {
    flown := ⟨[], ⟨rfl, fun b hb => (by cases hb), [], rfl, .nil⟩, fun _ => Debounce.keeps_idle,
      fun _ _ => rfl⟩
    ended := fun _ => rfl
    fits := fun _ => ⟨rfl, rfl⟩ }

/-- **Machine, timer and passes keep step.**  Whatever arrives in whatever order, a session that
takes what arrives is in one of three phases; passes never overlap, each compiles the files that its
changes ask for, and the accepted changes are divided among the passes in their order.  Where the
session ended by itself, every accepted change was in a pass that is over. -/
theorem sessions_keep_step {options : WatchOptions} {cache : Option Cache} {s : Session}
    (hstart : Session.start options cache = .ok s) {w : Watch}
    (hsteps : Steps { session := s } w) :
    (w.session.Awake → ∃! phase, w.Shows phase)
    ∧ w.flying.map BegunPass.pass = w.session.running.toList ∧ w.flying.length ≤ 1
    ∧ (∀ b ∈ w.past ++ w.flying, ∃ cache,
      b.pass.files = (Session.rebuildSet cache b.changes).2)
    ∧ (∃ rest, Divided w.accepted (w.past ++ w.flying) rest
      ∧ (w.session.Awake → w.session.machine.held.Collects rest))
    ∧ (w.session.ended = true → w.session.stopping = false → w.flying = []
      ∧ Divided w.accepted w.past [] ∧ ∀ c ∈ w.accepted, ∃ b ∈ w.past, c.path ∈ b.changes) := by
  have hgood := (good_start hstart).steps hsteps
  obtain ⟨rest, ⟨hrunning, hfiles, hdivided⟩, hkeeps, hrest⟩ := hgood.flown
  refine ⟨hgood.existsUnique_shows, hrunning, ?_, hfiles,
    ⟨rest, hdivided, fun hawake => (hkeeps hawake).held⟩, ?_⟩
  · have hlength := congrArg List.length hrunning
    rw [List.length_map] at hlength
    rw [hlength]
    exact Option.length_toList_le
  · intro hended hstopping
    have hflying := hgood.ended hended
    rw [hflying, List.append_nil, hrest hended hstopping] at hdivided
    exact ⟨hflying, hdivided, fun c hc => hdivided.exists_pass hc⟩

/-- The source closes during a pass.  What changed since that pass began gets one more, and although
it fails the session ends with every change in a pass that is over. -/
theorem sessions_keep_step_closed :
    ∃ s w, Session.start { root := ⟨"/w"⟩, patterns := ["**"], ignored := [] } none = .ok s
      ∧ Steps { session := s } w ∧ w.session.ended = true ∧ w.session.stopping = false
      ∧ w.accepted = [⟨.change, ⟨"a"⟩⟩, ⟨.add, ⟨"b"⟩⟩]
      ∧ w.past.map (·.pass.files) = [[⟨"a"⟩], [⟨"b"⟩]]
      ∧ ∀ c ∈ w.accepted, ∃ b ∈ w.past, c.path ∈ b.changes := by
  have hparse : Glob.parse "**" = .ok [.anyPrefix] := by
    simp [Glob.parse, Glob.readFrom, Glob.readTwoStars, Glob.Frames.push]
  have hstart : Session.start { root := ⟨"/w"⟩, patterns := ["**"], ignored := [] } none
      = .ok {
        filter := ⟨⟨"/w"⟩, [[.anyPrefix]], []⟩
        debounce := 300
        events := [.starting ⟨"/w"⟩ ["**"]] } := by
    simp [Session.start, PathFilter.ofTexts, PathFilter.readPatterns, hparse]
  have hchanged := Relation.ReflTransGen.single (Step.change
    (w := { session := {
      filter := ⟨⟨"/w"⟩, [[.anyPrefix]], []⟩
      debounce := 300
      events := [.starting ⟨"/w"⟩ ["**"]] } })
    0 ⟨.change, ⟨"a"⟩⟩ ⟨rfl, rfl⟩ (by decide))
  have hbegun := hchanged.tail (.timer 300 ⟨by decide +kernel, by decide +kernel⟩)
  have hmore := hbegun.tail (.change 310 ⟨.add, ⟨"b"⟩⟩ ⟨by decide +kernel, by decide +kernel⟩
    (by decide +kernel))
  have hclosed := hmore.tail (.sourceClosed ⟨by decide +kernel, by decide +kernel⟩)
  have hagain := hclosed.tail (.passOver [] [] 400 (.ok ⟨[⟨"a"⟩], []⟩)
    (by decide +kernel) rfl)
  have hsteps := hagain.tail (.passOver [] [] 500 (.error .poolShuttingDown)
    (by decide +kernel) rfl)
  obtain ⟨-, -, -, -, -, htaken⟩ := sessions_keep_step hstart hsteps
  have hended := htaken (by decide +kernel) (by decide +kernel)
  exact ⟨_, _, hstart, hsteps, by decide +kernel, by decide +kernel, rfl, by decide +kernel,
    hended.2.2⟩

end Watch
end Rebuild
