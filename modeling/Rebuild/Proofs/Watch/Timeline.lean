import Rebuild.Proofs.Watch.Session
import Rebuild.Watch.Timeline

/-!
# Time makes only steps

A timeline decides by its clock what comes next.  Whatever it decides is a step of a watch
(`Good.exists_steps_advance`), so that what holds after any steps holds at any time.
-/

namespace Rebuild.Watch

variable {w : Watch} {σ : Type} {t t' : Timeline σ}

lemma exists_steps_take (hsession : w.session = t.session) (hended : t.session.ended = false)
    (htake : t.take? = some t') : ∃ w', Steps w w' ∧ w'.session = t'.session := by
  rw [Timeline.take?] at htake
  split at htake
  case isTrue => cases htake
  case isFalse hstopping =>
    have hawake : w.session.Awake := by
      rw [hsession]
      exact ⟨hended, Bool.eq_false_iff.2 hstopping⟩
    split at htake
    case isTrue =>
      obtain rfl := Option.some.inj htake
      exact ⟨_, .single (.timer t.now hawake), by rw [session_go, hsession]⟩
    case isFalse =>
      split at htake
      case h_1 i inbox hinbox =>
        obtain rfl := Option.some.inj htake
        cases i with
        | failure message => exact ⟨_, .single (.failure t.now message hawake), by rw [hsession]⟩
        | change c =>
            cases haccepts : w.session.filter.accepts c.path with
            | false => exact ⟨_, .single (.ignored t.now c hawake haccepts), by rw [hsession]⟩
            | true =>
                refine ⟨_, .single (.change t.now c hawake haccepts), ?_⟩
                rw [← hsession]
                exact session_go _ _ _
      case h_2 hinbox =>
        split at htake
        case isTrue =>
          obtain rfl := Option.some.inj htake
          exact ⟨_, .single (.sourceClosed hawake), by rw [hsession]⟩
        case isFalse => cases htake

/-- The end of a pass is two steps, as the pass may have changed the cache. -/
lemma Good.exists_steps_endPass (h : w.Good) (hsession : w.session = t.session)
    (hended : t.session.ended = false) {pass : Pass} (hrunning : t.session.running = some pass) :
    ∃ w', Steps w w' ∧ w'.session = (t.endPass pass).session := by
  obtain ⟨rest, hflown, -, -⟩ := h.flown
  have hflying := hflown.running
  rw [hsession, hrunning] at hflying
  obtain ⟨b, hb, -⟩ := List.map_eq_singleton_iff.1 hflying
  rw [← hsession] at hended
  let result := t.runner.run t.state t.session.cache pass.files
  refine ⟨_, .tail (.single (.cache result.2.1))
    (.passOver [] [] t.now result.2.2 hended hb), ?_⟩
  rw [session_go, hsession]
  rfl

/-- What is due first at a moment is a step, or for the end of a pass two. -/
lemma Good.exists_steps_turn (h : w.Good) (hsession : w.session = t.session)
    (hturn : t.turn? = some t') : ∃ w', Steps w w' ∧ w'.session = t'.session := by
  rw [Timeline.turn?] at hturn
  split at hturn
  case isTrue => cases hturn
  case isFalse hopen =>
    have hended : t.session.ended = false := Bool.eq_false_iff.2 hopen
    split at hturn
    case isTrue hstop =>
      rw [Bool.and_eq_true, Bool.not_eq_true'] at hstop
      obtain rfl := Option.some.inj hturn
      have hawake : w.session.Awake := by
        rw [hsession]
        exact ⟨hended, hstop.2⟩
      exact ⟨_, .single (.stop hawake), by rw [hsession]⟩
    case isFalse =>
      split at hturn
      case h_1 pass hoverdue =>
        obtain rfl := Option.some.inj hturn
        exact h.exists_steps_endPass hsession hended (Option.filter_eq_some_iff.1 hoverdue).1
      case h_2 =>
        split at hturn
        case h_1 taken htake =>
          obtain rfl := Option.some.inj hturn
          exact exists_steps_take hsession hended htake
        case h_2 =>
          obtain ⟨pass, hpass, rfl⟩ := Option.map_eq_some_iff.1 hturn
          exact h.exists_steps_endPass hsession hended (Option.filter_eq_some_iff.1 hpass).1

/-- **Time makes only steps**: whatever a timeline does until a horizon, its session goes through
steps of a watch. -/
theorem Good.exists_steps_advance (h : w.Good) (hsession : w.session = t.session)
    (horizon : Option Nat) (fuel : Nat) :
    ∃ w', Steps w w' ∧ w'.session = (t.advance horizon fuel).session := by
  induction fuel generalizing w t with
  | zero => exact ⟨w, .refl, hsession⟩
  | succ fuel ih =>
      rw [Timeline.advance]
      split
      case h_1 turned hturn =>
        obtain ⟨w', hsteps, hw'⟩ := h.exists_steps_turn hsession hturn
        obtain ⟨w'', hsteps', hw''⟩ := ih (h.steps hsteps) hw'
        exact ⟨w'', hsteps.trans hsteps', hw''⟩
      case h_2 =>
        split
        case h_1 deadline _ =>
          split
          case isTrue => exact ih h hsession
          case isFalse => exact ⟨w, .refl, hsession⟩
        case h_2 => exact ⟨w, .refl, hsession⟩

end Rebuild.Watch
