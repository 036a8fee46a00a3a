import Rebuild.Proofs.Watch.Session

/-!
# What a session tells is well formed

A pass reports its end into a channel, and the session takes it from there when it gets to it.  In
between anything may arrive, the stop of the session among it, and a session that was stopped still
takes what its last pass has reported.

* **Notices.**  The failure of a pass and that of the source are the same event.  A `Notice` says
  which of the two an event is, and of which pass.
* **Feeds.**  A `Watch.Feed` is a session with the channel and a log of its notices.  Its steps are
  those of the session, but that the end of a pass is reported first and taken later.
* **Invariant.**  `Chronicle` says how the log of a session goes on, and is kept by all that a
  session does.
* **Endpoint.**  `events_well_formed`.
-/

namespace Rebuild

/-! ## Notices -/

/-- The end of a pass, as the pass reports it. -/
structure Ending where
  pass : Pass
  outcome : Except BuildError CompileOutcome

/-- Something that a session tells, with what it is about. -/
inductive Notice where
  | starting (root : Path) (patterns : List String)
  | change (kind : ChangeKind) (path : Path)
  /-- The source failed. -/
  | failure (message : String)
  | begun (pass : Pass)
  | finished (now : Nat) (e : Ending)

/-- What remains of a notice in an account of passes. -/
inductive Mark where
  | starting (root : Path) (patterns : List String)
  | begun (pass : Pass)
  | finished (e : Ending)

namespace Notice

/-- The event that is told: a pass that is over tells its own cycle and files, and its counts, or
why there are none. -/
def event : Notice → Event
  | starting root patterns => .starting root patterns
  | change kind path => .change kind path
  | failure message => .error message
  | begun pass => .compiling pass.cycle pass.files
  | finished now ⟨pass, .ok outcome⟩ => .compiled {
      cycle := pass.cycle
      files := pass.files
      succeeded := outcome.succeeded.length
      failed := outcome.errors.length
      durationMs := now - pass.started
      errors := outcome.errors }
  | finished _ ⟨_, .error e⟩ => .error e.message

def mark? : Notice → Option Mark
  | starting root patterns => some (.starting root patterns)
  | begun pass => some (.begun pass)
  | finished _ e => some (.finished e)
  | change .. | failure _ => none

end Notice

/-- What passes that are over leave in an account: each began, and ended before the next. -/
def Ending.marks (e : Ending) : List Mark := [.begun e.pass, .finished e]

/-! ## The log of a session -/

namespace Session

/-- What a session tells of the pass that it starts, if that is the action. -/
def begun (s : Session) : Action → List Notice
  | .compile _ => s.running.toList.map .begun
  | _ => []

lemma begun_rest (s : Session) {a : Action} (h : a.isCompile = false) : s.begun a = [] := by
  cases a with
  | compile changes => cases h
  | nothing => rfl
  | resetTimer => rfl

lemma begun_checkEnd (s : Session) (a : Action) : s.checkEnd.begun a = s.begun a := by
  cases a with
  | compile changes => rw [begun, Watch.running_checkEnd, begun]
  | nothing => rfl
  | resetTimer => rfl

/-- How a log goes on. -/
structure Chronicle (options : WatchOptions) (s : Session) (log : List Notice)
    (taken : List Ending) : Prop where
  events : s.events.reverse = log.map Notice.event
  first : log.head? = some (.starting options.root options.patterns)
  marks : log.filterMap Notice.mark? = .starting options.root options.patterns
    :: (taken.flatMap Ending.marks ++ s.running.toList.map .begun)
  cycles : (taken.map Ending.pass ++ s.running.toList).map Pass.cycle = List.range' 1 s.cycle

variable {options : WatchOptions} {s s' : Session} {log : List Notice} {taken : List Ending}

lemma Chronicle.session (h : s.Chronicle options log taken) (hevents : s'.events = s.events)
    (hrunning : s'.running = s.running) (hcycle : s'.cycle = s.cycle) :
    s'.Chronicle options log taken where
  events := by rw [hevents, h.events]
  first := h.first
  marks := by rw [hrunning, h.marks]
  cycles := by rw [hrunning, hcycle, h.cycles]

lemma Chronicle.checkEnd (h : s.Chronicle options log taken) :
    s.checkEnd.Chronicle options log taken := by
  rw [Session.checkEnd]
  split_ifs
  · exact h.session rfl rfl rfl
  · exact h

lemma head?_append {log : List Notice} {n : Notice} (h : log.head? = some n)
    (more : List Notice) : (log ++ more).head? = some n := by
  rw [List.head?_append, h, Option.some_or]

/-- What is not about a pass. -/
lemma Chronicle.tell (h : s.Chronicle options log taken) (n : Notice) (hn : n.mark? = none) :
    (s.tell n.event).Chronicle options (log ++ [n]) taken where
  events := by
    rw [Session.tell, List.reverse_cons, h.events, List.map_append]
    rfl
  first := head?_append h.first _
  marks := by
    rw [List.filterMap_append, List.filterMap_cons_none hn, List.filterMap_nil, List.append_nil,
      h.marks]
    rfl
  cycles := h.cycles

/-- A session that starts a pass while none runs tells of it, with the next cycle. -/
lemma Chronicle.perform (h : s.Chronicle options log taken) (now : Nat)
    (next : Debounce × Action) (hfree : next.2.isCompile = true → s.running = none) :
    (s.perform now next).Chronicle options (log ++ (s.perform now next).begun next.2) taken := by
  obtain ⟨m, a⟩ := next
  cases a with
  | nothing =>
      rw [begun_rest _ rfl, List.append_nil]
      exact h.session rfl rfl rfl
  | resetTimer =>
      rw [begun_rest _ rfl, List.append_nil]
      exact h.session rfl rfl rfl
  | compile changes =>
      have hmarks := h.marks
      have hcycles := h.cycles
      rw [hfree rfl, Option.toList_none, List.map_nil, List.append_nil] at hmarks
      rw [hfree rfl, Option.toList_none, List.append_nil] at hcycles
      refine ⟨?_, head?_append h.first _, ?_, ?_⟩
      · show (_ :: s.events).reverse = _
        rw [List.reverse_cons, h.events, List.map_append]
        rfl
      · rw [List.filterMap_append, hmarks]
        rfl
      · show (taken.map Ending.pass ++ [_]).map Pass.cycle = List.range' 1 (s.cycle + 1)
        rw [List.map_append, hcycles, List.range'_concat, Nat.one_mul, Nat.add_comm 1]
        rfl

/-- The end of the pass that runs. -/
lemma Chronicle.finish (h : s.Chronicle options log taken) {pass : Pass}
    (hrunning : s.running = some pass) (now : Nat) (outcome : Except BuildError CompileOutcome) :
    Chronicle options ({ s with running := none }.tellOutcome now pass outcome)
      (log ++ [.finished now ⟨pass, outcome⟩]) (taken ++ [⟨pass, outcome⟩]) := by
  have hmarks := h.marks
  have hcycles := h.cycles
  rw [hrunning] at hmarks hcycles
  have htold : { s with running := none }.tellOutcome now pass outcome
      = { s with running := none }.tell (Notice.finished now ⟨pass, outcome⟩).event := by
    cases outcome <;> rfl
  rw [htold]
  refine ⟨?_, head?_append h.first _, ?_, ?_⟩
  · rw [Session.tell, List.reverse_cons, h.events, List.map_append]
    rfl
  · rw [List.filterMap_append, hmarks, List.flatMap_append]
    simp [Session.tell, Ending.marks, Notice.mark?]
  · show ((taken ++ [_]).map Ending.pass ++ []).map Pass.cycle = List.range' 1 s.cycle
    rw [← hcycles, List.append_nil, List.map_append]
    rfl

end Session

namespace Watch

/-! ## Steps -/

/-- A session with the channel of its passes, and what it told. -/
structure Feed where
  watch : Watch
  /-- The ends that were reported and not taken yet, the oldest first. -/
  channel : List Ending := []
  /-- All ends that were reported, in their order. -/
  reported : List Ending := []
  log : List Notice

namespace Feed

/-- The session has gone on, and told of it. -/
def on (f : Feed) (w : Watch) (notices : List Notice) : Feed :=
  { f with watch := w, log := f.log ++ notices }

/-- The feed of a session that has just been started. -/
def opening (options : WatchOptions) (s : Session) : Feed where
  watch := { session := s }
  log := [.starting options.root options.patterns]

/-- What can arrive, as in `Watch.Step`; but a pass that is over reports it, whatever the session is
at, and the session takes it later. -/
inductive Step : Feed → Feed → Prop where
  | change {f : Feed} (now : Nat) (c : Change) (hawake : f.watch.session.Awake)
      (h : f.watch.session.filter.accepts c.path = true) :
      Step f (f.on { f.watch.go (f.watch.session.input now (.change c))
        (f.watch.session.machine.change c).2 with accepted := f.watch.accepted ++ [c] }
        [.change c.kind c.path])
  | ignored {f : Feed} (now : Nat) (c : Change) (hawake : f.watch.session.Awake)
      (h : f.watch.session.filter.accepts c.path = false) :
      Step f (f.on { f.watch with session := f.watch.session.input now (.change c) } [])
  | failure {f : Feed} (now : Nat) (message : String) (hawake : f.watch.session.Awake) :
      Step f (f.on { f.watch with session := f.watch.session.input now (.failure message) }
        [.failure message])
  | sourceClosed {f : Feed} (hawake : f.watch.session.Awake) :
      Step f (f.on { f.watch with session := f.watch.session.sourceClosed } [])
  | timer {f : Feed} (now : Nat) (hawake : f.watch.session.Awake) :
      Step f (f.on (f.watch.go (f.watch.session.timerFired now) f.watch.session.machine.timer.2)
        ((f.watch.session.timerFired now).begun f.watch.session.machine.timer.2))
  /-- Each pass reports its end once. -/
  | report {f : Feed} {b : BegunPass} (outcome : Except BuildError CompileOutcome)
      (h : b ∈ f.watch.flying) (hnew : ∀ e ∈ f.channel, e.pass ≠ b.pass) :
      Step f { f with
        channel := f.channel ++ [⟨b.pass, outcome⟩]
        reported := f.reported ++ [⟨b.pass, outcome⟩] }
  | take {f : Feed} {b : BegunPass} {outcome : Except BuildError CompileOutcome}
      {rest : List Ending} (before after : List BegunPass) (now : Nat)
      (hended : f.watch.session.ended = false) (h : f.watch.flying = before ++ b :: after)
      (hchannel : f.channel = ⟨b.pass, outcome⟩ :: rest) :
      Step f { f.on ((f.watch.land before after b).go (f.watch.session.passFinished now outcome)
          (if f.watch.session.stopping then .nothing else f.watch.session.machine.finished.2))
        (.finished now ⟨b.pass, outcome⟩ :: (f.watch.session.passFinished now outcome).begun
          (if f.watch.session.stopping then .nothing else f.watch.session.machine.finished.2))
        with channel := rest }
  | stop {f : Feed} (hawake : f.watch.session.Awake) :
      Step f (f.on { f.watch with session := f.watch.session.stop } [])
  | cache {f : Feed} (cache : Option Cache) :
      Step f (f.on { f.watch with session := { f.watch.session with cache } } [])

/-- Any number of steps. -/
abbrev Steps : Feed → Feed → Prop := Relation.ReflTransGen Step

variable {options : WatchOptions} {f f' : Feed}

/-- The session does not know of the channel. -/
lemma Step.watch (h : Step f f') : f'.watch = f.watch ∨ Watch.Step f.watch f'.watch := by
  cases h with
  | change now c hawake haccepts => exact .inr (.change now c hawake haccepts)
  | ignored now c hawake hrefuses => exact .inr (.ignored now c hawake hrefuses)
  | failure now message hawake => exact .inr (.failure now message hawake)
  | sourceClosed hawake => exact .inr (.sourceClosed hawake)
  | timer now hawake => exact .inr (.timer now hawake)
  | report outcome h hnew => exact .inl rfl
  | take before after now hended hflying hchannel =>
      exact .inr (.passOver before after now _ hended hflying)
  | stop hawake => exact .inr (.stop hawake)
  | cache cache => exact .inr (.cache cache)

/-! ## The invariant -/

/-- What holds at any point. -/
structure Good (options : WatchOptions) (f : Feed) (taken : List Ending) : Prop where
  watch : f.watch.Good
  chronicle : f.watch.session.Chronicle options f.log taken
  reported : f.reported = taken ++ f.channel
  /-- There is at most the end of the pass that runs in the channel. -/
  channel : f.channel = []
    ∨ ∃ pass outcome, f.watch.session.running = some pass ∧ f.channel = [⟨pass, outcome⟩]

variable {taken : List Ending}

lemma running_perform (s : Session) (now : Nat) {next : Debounce × Action}
    (h : next.2.isCompile = false) : (s.perform now next).running = s.running := by
  obtain ⟨m, a⟩ := next
  cases a with
  | compile changes => cases h
  | nothing => rfl
  | resetTimer => rfl

/-- A step of the session that leaves the pass that runs to itself, if it has reported. -/
lemma Good.on (h : f.Good options taken) {w : Watch} {s : Session} {notices : List Notice}
    (hstep : Step f (f.on w notices)) (hsession : w.session = s)
    (hrunning : f.channel ≠ [] → s.running = f.watch.session.running)
    (hchronicle : s.Chronicle options (f.log ++ notices) taken) :
    (f.on w notices).Good options taken where
  watch := by
    rcases hstep.watch with heq | hstep
    · exact heq ▸ h.watch
    · exact h.watch.step hstep
  chronicle := hsession ▸ hchronicle
  reported := h.reported
  channel := h.channel.imp_right fun ⟨pass, outcome, hpass, hchannel⟩ =>
    ⟨pass, outcome, (congrArg Session.running hsession).trans
      ((hrunning (by simp [hchannel])).trans hpass), hchannel⟩

/-- A pass may only start while none runs, and then the channel is empty. -/
lemma Good.running_eq (h : f.Good options taken) {s : Session} {now : Nat}
    {next : Debounce × Action} (hs : s.running = f.watch.session.running)
    (hfree : next.2.isCompile = true → f.watch.session.running = none)
    (hchannel : f.channel ≠ []) :
    (s.perform now next).checkEnd.running = f.watch.session.running := by
  rw [running_checkEnd, running_perform, hs]
  by_contra hcompile
  rcases h.channel with hnil | ⟨pass, outcome, hpass, -⟩
  · exact hchannel hnil
  · cases (hfree (by simpa using hcompile)).symm.trans hpass

/-! ## One step -/

lemma Good.change (h : f.Good options taken) (now : Nat) (c : Change)
    (hawake : f.watch.session.Awake) (haccepts : f.watch.session.filter.accepts c.path = true) :
    (f.on { f.watch.go (f.watch.session.input now (.change c))
      (f.watch.session.machine.change c).2 with accepted := f.watch.accepted ++ [c] }
      [.change c.kind c.path]).Good options taken := by
  have hrest : (f.watch.session.machine.change c).2.isCompile = false := by
    cases f.watch.session.machine <;> rfl
  have hfree : (f.watch.session.machine.change c).2.isCompile = true →
      f.watch.session.running = none := fun hcompile => by
    rw [hrest] at hcompile
    cases hcompile
  have htold := (h.chronicle.tell (.change c.kind c.path) rfl).perform now
    (f.watch.session.machine.change c) hfree
  rw [Session.begun_rest _ hrest, List.append_nil] at htold
  refine h.on (.change now c hawake haccepts) (session_go _ _ _) ?_ ?_
  · rw [Session.input, if_pos haccepts]
    exact h.running_eq rfl hfree
  · rw [Session.input, if_pos haccepts]
    exact htold.checkEnd

lemma Good.timer (h : f.Good options taken) (now : Nat) (hawake : f.watch.session.Awake) :
    (f.on (f.watch.go (f.watch.session.timerFired now) f.watch.session.machine.timer.2)
      ((f.watch.session.timerFired now).begun f.watch.session.machine.timer.2)).Good
        options taken := by
  have hfree : f.watch.session.machine.timer.2.isCompile = true →
      f.watch.session.running = none := by
    obtain ⟨rest, hflown, -⟩ := h.watch.flown
    have hfits := h.watch.fits hawake
    cases hm : f.watch.session.machine with
    | accumulating pending =>
        rw [hm] at hfits
        exact fun _ => hflown.running_eq_none hfits.2
    | idle => exact fun hcompile => by cases hcompile
    | compiling buffered => exact fun hcompile => by cases hcompile
  have hunarmed : Session.Chronicle options { f.watch.session with timer := none } f.log taken :=
    h.chronicle.session rfl rfl rfl
  have htold := hunarmed.perform now f.watch.session.machine.timer hfree
  refine h.on (.timer now hawake) (session_go _ _ _) (h.running_eq rfl hfree) ?_
  rw [Session.timerFired, Session.begun_checkEnd]
  exact htold.checkEnd

lemma Good.stop (h : f.Good options taken) (hawake : f.watch.session.Awake) :
    (f.on { f.watch with session := f.watch.session.stop } []).Good options taken := by
  refine h.on (.stop hawake) rfl (fun _ => ?_) ?_
  · rw [Session.stop]
    split_ifs <;> rfl
  · rw [List.append_nil, Session.stop]
    split_ifs <;> exact h.chronicle.session rfl rfl rfl

/-- A pass that reports is the one that runs, and the first to do so. -/
lemma Good.report (h : f.Good options taken) {b : BegunPass}
    (outcome : Except BuildError CompileOutcome) (hb : b ∈ f.watch.flying)
    (hnew : ∀ e ∈ f.channel, e.pass ≠ b.pass) :
    Good options { f with
      channel := f.channel ++ [⟨b.pass, outcome⟩]
      reported := f.reported ++ [⟨b.pass, outcome⟩] } taken := by
  obtain ⟨rest, hflown, -⟩ := h.watch.flown
  obtain ⟨before, after, hflying⟩ := List.append_of_mem hb
  obtain ⟨hrunning, -, -⟩ := hflown.flying_eq hflying
  have hchannel : f.channel = [] := by
    rcases h.channel with hnil | ⟨pass, outcome', hpass, hchannel⟩
    · exact hnil
    · cases hrunning.symm.trans hpass
      exact absurd rfl (hnew _ (hchannel ▸ List.mem_singleton_self _))
  refine ⟨h.watch, h.chronicle, ?_, .inr ⟨b.pass, outcome, hrunning, by rw [hchannel]; rfl⟩⟩
  show f.reported ++ _ = taken ++ (f.channel ++ _)
  rw [h.reported, List.append_assoc]

/-- The session takes the end of the pass that runs, also after it was stopped. -/
lemma Good.take (h : f.Good options taken) {b : BegunPass}
    {outcome : Except BuildError CompileOutcome} {rest : List Ending}
    (before after : List BegunPass) (now : Nat) (hended : f.watch.session.ended = false)
    (hflying : f.watch.flying = before ++ b :: after)
    (hchannel : f.channel = ⟨b.pass, outcome⟩ :: rest) :
    Good options { f.on ((f.watch.land before after b).go
        (f.watch.session.passFinished now outcome)
        (if f.watch.session.stopping then .nothing else f.watch.session.machine.finished.2))
      (.finished now ⟨b.pass, outcome⟩ :: (f.watch.session.passFinished now outcome).begun
        (if f.watch.session.stopping then .nothing else f.watch.session.machine.finished.2))
      with channel := rest } (taken ++ [⟨b.pass, outcome⟩]) := by
  obtain ⟨_, hflown, -⟩ := h.watch.flown
  obtain ⟨hrunning, -, -⟩ := hflown.flying_eq hflying
  have hnil : rest = [] := by
    rcases h.channel with hnil | ⟨_, _, -, hone⟩
    · cases hnil.symm.trans hchannel
    · exact (List.cons.inj (hone.symm.trans hchannel)).2.symm
  have hover := h.chronicle.finish hrunning now outcome
  refine ⟨h.watch.passOver now outcome hended hflying, ?_, ?_, .inl hnil⟩
  · show Session.Chronicle options (Watch.session (Watch.go _ _ _)) (f.log ++ _) _
    rw [session_go, Session.passFinished, hrunning, List.append_cons]
    -- A session that was stopped ends here; any other goes on, perhaps with the next pass.
    by_cases hstopping : f.watch.session.stopping = true
    · simp only [if_pos hstopping]
      rw [Session.begun_rest _ rfl, List.append_nil]
      exact hover.session rfl rfl rfl
    · simp only [if_neg hstopping]
      rw [Session.begun_checkEnd]
      refine (hover.perform now _ fun _ => ?_).checkEnd
      cases outcome <;> rfl
  · show f.reported = _
    rw [h.reported, hchannel, List.append_assoc]
    rfl

/-- **Every step keeps the invariant.** -/
lemma Good.step (h : f.Good options taken) (hstep : Step f f') :
    ∃ taken, f'.Good options taken := by
  have hstep' := hstep
  cases hstep with
  | change now c hawake haccepts => exact ⟨_, h.change now c hawake haccepts⟩
  | ignored now c hawake hrefuses =>
      have hinput : f.watch.session.input now (.change c) = f.watch.session.checkEnd :=
        if_neg (by rw [hrefuses]; exact Bool.false_ne_true)
      refine ⟨_, h.on hstep' hinput (fun _ => running_checkEnd _) ?_⟩
      rw [List.append_nil]
      exact h.chronicle.checkEnd
  | failure now message hawake =>
      exact ⟨_, h.on hstep' rfl (fun _ => running_checkEnd _)
        (h.chronicle.tell (.failure message) rfl).checkEnd⟩
  | sourceClosed hawake =>
      have hclosed : Session.Chronicle options { f.watch.session with sourceOpen := false }
          (f.log ++ []) taken := by
        rw [List.append_nil]
        exact h.chronicle.session rfl rfl rfl
      exact ⟨_, h.on hstep' rfl (fun _ => running_checkEnd _) hclosed.checkEnd⟩
  | timer now hawake => exact ⟨_, h.timer now hawake⟩
  | report outcome hb hnew => exact ⟨_, h.report outcome hb hnew⟩
  | take before after now hended hflying hchannel =>
      exact ⟨_, h.take before after now hended hflying hchannel⟩
  | stop hawake => exact ⟨_, h.stop hawake⟩
  | cache cache =>
      refine ⟨_, h.on hstep' rfl (fun _ => rfl) ?_⟩
      rw [List.append_nil]
      exact h.chronicle.session rfl rfl rfl

lemma Good.steps (h : f.Good options taken) (hsteps : Steps f f') :
    ∃ taken, f'.Good options taken := by
  induction hsteps with
  | refl => exact ⟨taken, h⟩
  | tail _ hstep ih =>
      obtain ⟨taken, h⟩ := ih
      exact h.step hstep

/-! ## Sessions from their start on -/

lemma good_opening {cache : Option Cache} {s : Session}
    (h : Session.start options cache = .ok s) : (opening options s).Good options [] := by
  have hgood := good_start h
  rw [Session.start, bind_eq_ok_iff] at h
  obtain ⟨filter, -, hs⟩ := h
  obtain rfl := Except.ok.inj hs
  exact ⟨hgood, ⟨rfl, rfl, rfl, rfl⟩, rfl, .inl rfl⟩

/-- What a session has told, with the ends of passes that it has taken. -/
structure WellFormed (options : WatchOptions) (f : Feed) (taken : List Ending) : Prop where
  /-- The log tells the events of the session, all of them and in their order. -/
  events : f.watch.session.events.reverse = f.log.map Notice.event
  first : f.log.head? = some (.starting options.root options.patterns)
  /-- The session starts once.  Each pass begins, and is over once before the next begins; the last
  one may still run. -/
  marks : f.log.filterMap Notice.mark? = .starting options.root options.patterns
    :: (taken.flatMap Ending.marks ++ f.watch.session.running.toList.map .begun)
  cycles : (taken.map Ending.pass ++ f.watch.session.running.toList).map Pass.cycle
    = List.range' 1 f.watch.session.cycle
  /-- What is told of the end of a pass is what the pass has reported: nothing gets lost, and
  nothing is told twice. -/
  reported : f.reported = taken ++ f.channel
  /-- An end that was not taken is that of the pass that runs, and can be taken next. -/
  channel : ∀ e ∈ f.channel, f.watch.session.running = some e.pass ∧ f.channel = [e]
    ∧ ∀ now, ∃ f', Step f f' ∧ f.log ++ [.finished now e] <+: f'.log ∧ f'.channel = []
  /-- No pass runs when the session ends, and all ends were taken. -/
  ended : f.watch.session.ended = true → f.watch.session.running = none ∧ f.reported = taken

lemma Good.wellFormed (h : f.Good options taken) : f.WellFormed options taken := by
  obtain ⟨events, first, marks, cycles⟩ := h.chronicle
  obtain ⟨rest, hflown, -⟩ := h.watch.flown
  refine ⟨events, first, marks, cycles, h.reported, fun e he => ?_, fun hended => ?_⟩
  · rcases h.channel with hnil | ⟨pass, outcome, hrunning, hchannel⟩
    · rw [hnil] at he
      cases he
    · rw [hchannel] at he
      obtain rfl := List.mem_singleton.1 he
      -- The pass that runs is among those that fly, so the session has not ended.
      have hmap := hflown.running
      rw [hrunning, Option.toList_some, List.map_eq_singleton_iff] at hmap
      obtain ⟨b, hflying, rfl⟩ := hmap
      have hended : f.watch.session.ended = false := by
        by_contra hended
        have hnone := h.watch.ended (by simpa using hended)
        rw [hflying] at hnone
        cases hnone
      refine ⟨hrunning, hchannel, fun now => ⟨_, .take [] [] now hended hflying hchannel, ?_, rfl⟩⟩
      exact (List.prefix_append_right_inj f.log).2 ⟨_, rfl⟩
  · have hnone := hflown.running_eq_none (h.watch.ended hended)
    refine ⟨hnone, ?_⟩
    rcases h.channel with hnil | ⟨pass, outcome, hrunning, -⟩
    · rw [h.reported, hnil, List.append_nil]
    · cases hnone.symm.trans hrunning

/-- **What a session tells is well formed.**  Whatever arrives in whatever order, it tells of its
start first.  The passes that it tells of have the cycles 1, 2, 3 and so on; of each that begins it
tells the end once, before the next begins and before the session is over, with the cycle and the
files that it began with and the counts that it reported, or the message of its failure.  That the
session is stopped, even between the report and its being taken, changes nothing of this. -/
theorem events_well_formed {options : WatchOptions} {cache : Option Cache} {s : Session}
    (hstart : Session.start options cache = .ok s) {f : Feed}
    (hsteps : Steps (opening options s) f) : ∃ taken, f.WellFormed options taken := by
  obtain ⟨taken, h⟩ := (good_opening hstart).steps hsteps
  exact ⟨taken, h.wellFormed⟩

/-- The first pass fails, and what changed meanwhile gets a second one.  The session is stopped
after that one has reported and before its end was taken, which is told all the same. -/
theorem events_well_formed_stopped :
    ∃ s f, Session.start { root := ⟨"/w"⟩, patterns := ["**"], ignored := [] } none = .ok s
      ∧ Steps (opening { root := ⟨"/w"⟩, patterns := ["**"], ignored := [] } s) f
      ∧ (∃ taken, f.WellFormed { root := ⟨"/w"⟩, patterns := ["**"], ignored := [] } taken)
      ∧ f.watch.session.ended = true
      ∧ f.watch.session.events.reverse = [.starting ⟨"/w"⟩ ["**"], .change .change ⟨"a"⟩,
        .compiling 1 [⟨"a"⟩], .change .add ⟨"b"⟩, .error "worker pool shutting down",
        .compiling 2 [⟨"b"⟩], .compiled {
          cycle := 2, files := [⟨"b"⟩], succeeded := 1, failed := 0, durationMs := 100
          errors := [] }] := by
  have hparse : Glob.parse "**" = .ok [.anyPrefix] := by
    simp [Glob.parse, Glob.readFrom, Glob.readTwoStars, Glob.Frames.push]
  have hstart : Session.start { root := ⟨"/w"⟩, patterns := ["**"], ignored := [] } none
      = .ok {
        filter := ⟨⟨"/w"⟩, [[.anyPrefix]], []⟩
        debounce := 300
        events := [.starting ⟨"/w"⟩ ["**"]] } := by
    simp [Session.start, PathFilter.ofTexts, PathFilter.readPatterns, hparse]
  have hchanged := Relation.ReflTransGen.single (Step.change
    (f := opening { root := ⟨"/w"⟩, patterns := ["**"], ignored := [] } {
      filter := ⟨⟨"/w"⟩, [[.anyPrefix]], []⟩
      debounce := 300
      events := [.starting ⟨"/w"⟩ ["**"]] })
    0 ⟨.change, ⟨"a"⟩⟩ ⟨rfl, rfl⟩ (by decide))
  have hbegun := hchanged.tail (.timer 300 ⟨by decide +kernel, by decide +kernel⟩)
  have hmore := hbegun.tail (.change 310 ⟨.add, ⟨"b"⟩⟩ ⟨by decide +kernel, by decide +kernel⟩
    (by decide +kernel))
  have hfailed := hmore.tail (.report (.error .poolShuttingDown) List.mem_cons_self
    (fun e he => by cases he))
  have hagain := hfailed.tail (.take [] [] 400 (by decide +kernel) rfl rfl)
  have hdone := hagain.tail (.report (.ok ⟨[⟨"b"⟩], []⟩) List.mem_cons_self
    (fun e he => by cases he))
  have hstopped := hdone.tail (.stop ⟨by decide +kernel, by decide +kernel⟩)
  have hsteps := hstopped.tail (.take [] [] 500 (by decide +kernel) rfl rfl)
  exact ⟨_, _, hstart, hsteps, events_well_formed hstart hsteps, by decide +kernel,
    by decide +kernel⟩

end Feed
end Watch
end Rebuild
