import Mathlib.Data.List.Basic
import Mathlib.Tactic.Common
import Rebuild.Text.Pattern

/-!
# What patterns match

A pattern is said to take a text, which stands between a character and a rest, if it matches from its
beginning to its end.  `Pattern.Takes` is this relation, by recursion on the pattern and together with
what is marked.

* **One place.**  `exists_takes_of_first?` and `not_takes_of_first?`: the first way to match is one, and
  there is one if the pattern takes anything.
* **Marks.**  `Takes.marks`: what is marked is a text that one of the marked parts takes.
* **The whole text.**  `exists_takes_of_mem_findAll`: what a search lists was marked in a match.  A match
  is passed over only if the search resumes after it; so `Marks.mem_findAll` finds it if no match that
  begins before goes on into it.
-/

namespace Rebuild.Text

/-! ## Places -/

namespace Place

variable {x y : Place} {text t t' rest rest' cs : List Char} {member : Char → Bool} {least n : Nat}
  {last : Option Char}

/-- The place that is reached over a text, before `rest`. -/
def past (x : Place) (t rest : List Char) : Place :=
  ⟨x.position + t.length, t.getLast?.or x.last, rest⟩

@[simp] lemma past_nil (x : Place) : x.past [] x.rest = x := rfl

@[simp] lemma rest_past (x : Place) (t rest : List Char) : (x.past t rest).rest = rest := rfl

@[simp] lemma past_past (x : Place) (t rest t' rest' : List Char) :
    (x.past t rest).past t' rest' = x.past (t ++ t') rest' := by
  rw [past, past, past, List.length_append, List.getLast?_append, Option.or_assoc, Nat.add_assoc]

lemma textTo_past (h : x.rest = t ++ rest) : x.textTo (x.past t rest) = t := by
  rw [textTo, past, h, Nat.add_sub_cancel_left, List.take_left]

lemma past_cons (n : Nat) (last : Option Char) (c : Char) (cs t rest : List Char) :
    past ⟨n, last, c :: cs⟩ (c :: t) rest = past ⟨n + 1, some c, cs⟩ t rest :=
  (past_past ⟨n, last, c :: cs⟩ [c] cs t rest).symm

lemma afterText?_eq_some_iff :
    x.afterText? text = some y ↔ ∃ rest, x.rest = text ++ rest ∧ y = x.past text rest := by
  induction text generalizing x with
  | nil => simp [afterText?, eq_comm]
  | cons c text ih =>
      obtain ⟨n, last, _ | ⟨d, cs⟩⟩ := x
      · simp [afterText?]
      · rw [afterText?]
        split_ifs with h
        · subst h
          simp [ih, past_cons n last c cs]
        · simp [Ne.symm h]

lemma afterOne?_eq_some_iff : x.afterOne? member = some y ↔
    ∃ c rest, member c = true ∧ x.rest = c :: rest ∧ y = x.past [c] rest := by
  obtain ⟨n, last, _ | ⟨c, cs⟩⟩ := x
  · simp [afterOne?]
  · rw [afterOne?]
    split_ifs with h
    · constructor
      · rintro ⟨⟩
        exact ⟨c, cs, h, rfl, rfl⟩
      · rintro ⟨_, _, -, ⟨⟩, rfl⟩
        rfl
    · simp [h]

lemma mem_stopsWith {found : List Place} : y ∈ stopsWith member n last cs found ↔
    (∃ t rest, cs = t ++ rest ∧ (∀ c ∈ t, member c = true) ∧ y = past ⟨n, last, cs⟩ t rest)
      ∨ y ∈ found := by
  induction cs generalizing n last found with
  | nil => simp [stopsWith, past]
  | cons c cs ih =>
      have hsplit : (∃ t rest, c :: cs = t ++ rest ∧ (∀ c ∈ t, member c = true)
          ∧ y = past ⟨n, last, c :: cs⟩ t rest) ↔ y = ⟨n, last, c :: cs⟩
          ∨ member c = true ∧ ∃ t rest, cs = t ++ rest ∧ (∀ c ∈ t, member c = true)
            ∧ y = past ⟨n + 1, some c, cs⟩ t rest := by
        constructor
        · rintro ⟨t, rest, hcs, hall, rfl⟩
          cases t with
          | nil => exact .inl (hcs ▸ rfl)
          | cons d t =>
              obtain ⟨rfl, rfl⟩ := List.cons_eq_cons.1 hcs
              obtain ⟨hc, hall⟩ := List.forall_mem_cons.1 hall
              exact .inr ⟨hc, t, rest, rfl, hall, past_cons n last c (t ++ rest) t rest⟩
        · rintro (rfl | ⟨hc, t, rest, rfl, hall, rfl⟩)
          · exact ⟨[], c :: cs, rfl, by simp, rfl⟩
          · exact ⟨c :: t, rest, rfl, List.forall_mem_cons.2 ⟨hc, hall⟩,
              (past_cons n last c (t ++ rest) t rest).symm⟩
      rw [stopsWith, hsplit]
      split_ifs with h
      · rw [ih, List.mem_cons, and_iff_right h, or_left_comm, or_assoc]
      · simp [h]

lemma mem_stops_iff : y ∈ x.stops member least ↔ ∃ t rest, x.rest = t ++ rest
    ∧ (∀ c ∈ t, member c = true) ∧ least ≤ t.length ∧ y = x.past t rest := by
  rw [stops, List.mem_filter, mem_stopsWith, or_iff_left List.not_mem_nil]
  constructor
  · rintro ⟨⟨t, rest, hrest, hall, rfl⟩, hleast⟩
    exact ⟨t, rest, hrest, hall, by simpa [past] using hleast, rfl⟩
  · rintro ⟨t, rest, hrest, hall, hleast, rfl⟩
    exact ⟨⟨t, rest, hrest, hall, rfl⟩, by simpa [past] using hleast⟩

end Place

/-! ## What a pattern takes -/

namespace Pattern

/-- The pattern takes the text `t`, which stands after `last` and before `rest`, and turns what is
marked from `mark` into the other. -/
def Takes : Pattern → Option Char → List Char → List Char → Mark → Mark → Prop
  | exactly text, _, t, _, mark, mark' => t = text ∧ mark' = mark
  | one member, _, t, _, mark, mark' => (∃ c, member c = true ∧ t = [c]) ∧ mark' = mark
  | many member least _, _, t, _, mark, mark' =>
    ((∀ c ∈ t, member c = true) ∧ least ≤ t.length) ∧ mark' = mark
  | optional p, last, t, rest, mark, mark' => Takes p last t rest mark mark' ∨ t = [] ∧ mark' = mark
  | either p q, last, t, rest, mark, mark' =>
    Takes p last t rest mark mark' ∨ Takes q last t rest mark mark'
  | both p q, last, t, rest, mark, mark' => ∃ first second between, t = first ++ second
    ∧ Takes p last first (second ++ rest) mark between
    ∧ Takes q (first.getLast?.or last) second rest between mark'
  | marked p, last, t, rest, mark, mark' =>
    (∃ inner, Takes p last t rest mark inner) ∧ mark' = some t
  | lineStart, last, t, rest, mark, mark' =>
    Place.opensLine ⟨0, last, t ++ rest⟩ = true ∧ t = [] ∧ mark' = mark
  | wordEdge, last, t, rest, mark, mark' =>
    Place.isWordEdge ⟨0, last, t ++ rest⟩ = true ∧ t = [] ∧ mark' = mark

variable {α : Type} {p : Pattern} {x y : Place} {mark mark' : Mark} {t rest : List Char}
  {andThen : Place → Mark → Option α}

section

variable {q r : Pattern} {last : Option Char} {text : List Char} {member : Char → Bool} {least : Nat}
  {greedy : Bool}

lemma takes_both_both : (both (both p q) r).Takes last t rest mark mark' ↔
    (both p (both q r)).Takes last t rest mark mark' := by
  constructor
  · rintro ⟨_, third, _, rfl, ⟨first, second, _, rfl, hp, hq⟩, hr⟩
    rw [List.getLast?_append, Option.or_assoc] at hr
    rw [← List.append_assoc] at hp
    exact ⟨first, second ++ third, _, List.append_assoc _ _ _, hp, second, third, _, rfl, hq, hr⟩
  · rintro ⟨first, _, _, rfl, hp, second, third, _, rfl, hq, hr⟩
    rw [← Option.or_assoc, ← List.getLast?_append] at hr
    rw [List.append_assoc] at hp
    exact ⟨first ++ second, third, _, (List.append_assoc _ _ _).symm, ⟨first, second, _, rfl, hp, hq⟩, hr⟩

lemma takes_either_exactly_both {text' : List Char} :
    (both (either (exactly text) (exactly text')) q).Takes last t rest mark mark' ↔
      ∃ word t', (word = text ∨ word = text') ∧ t = word ++ t'
        ∧ q.Takes (word.getLast?.or last) t' rest mark mark' := by
  constructor
  · rintro ⟨word, t', _, rfl, ⟨rfl, rfl⟩ | ⟨rfl, rfl⟩, h⟩
    · exact ⟨word, t', .inl rfl, rfl, h⟩
    · exact ⟨word, t', .inr rfl, rfl, h⟩
  · rintro ⟨word, t', hword, rfl, h⟩
    exact ⟨word, t', mark, rfl, hword.imp (⟨·, rfl⟩) (⟨·, rfl⟩), h⟩

lemma takes_wordEdge_both : (both wordEdge q).Takes last t rest mark mark' ↔
    Place.isWordEdge ⟨0, last, t ++ rest⟩ = true ∧ q.Takes last t rest mark mark' := by
  constructor
  · rintro ⟨_, t, _, rfl, ⟨hedge, rfl, rfl⟩, h⟩
    exact ⟨hedge, h⟩
  · rintro ⟨hedge, h⟩
    exact ⟨[], t, mark, rfl, ⟨hedge, rfl, rfl⟩, h⟩

lemma takes_exactly_both : (both (exactly text) q).Takes last t rest mark mark' ↔
    ∃ t', t = text ++ t' ∧ q.Takes (text.getLast?.or last) t' rest mark mark' := by
  constructor
  · rintro ⟨_, t', _, rfl, ⟨rfl, rfl⟩, h⟩
    exact ⟨t', rfl, h⟩
  · rintro ⟨t', rfl, h⟩
    exact ⟨text, t', mark, rfl, ⟨rfl, rfl⟩, h⟩

lemma takes_one_both : (both (one member) q).Takes last t rest mark mark' ↔
    ∃ c t', member c = true ∧ t = c :: t' ∧ q.Takes (some c) t' rest mark mark' := by
  constructor
  · rintro ⟨_, t', _, rfl, ⟨⟨c, hc, rfl⟩, rfl⟩, h⟩
    exact ⟨c, t', hc, rfl, h⟩
  · rintro ⟨c, t', hc, rfl, h⟩
    exact ⟨[c], t', mark, rfl, ⟨⟨c, hc, rfl⟩, rfl⟩, h⟩

lemma takes_many_both : (both (many member least greedy) q).Takes last t rest mark mark' ↔
    ∃ run t', (∀ c ∈ run, member c = true) ∧ least ≤ run.length ∧ t = run ++ t'
      ∧ q.Takes (run.getLast?.or last) t' rest mark mark' := by
  constructor
  · rintro ⟨run, t', _, rfl, ⟨⟨hall, hleast⟩, rfl⟩, h⟩
    exact ⟨run, t', hall, hleast, rfl, h⟩
  · rintro ⟨run, t', hall, hleast, rfl, h⟩
    exact ⟨run, t', mark, rfl, ⟨⟨hall, hleast⟩, rfl⟩, h⟩

lemma takes_marked_both : (both (marked p) q).Takes last t rest mark mark' ↔
    ∃ part t' inner, p.Takes last part (t' ++ rest) mark inner ∧ t = part ++ t'
      ∧ q.Takes (part.getLast?.or last) t' rest (some part) mark' := by
  constructor
  · rintro ⟨part, t', _, rfl, ⟨⟨inner, hpart⟩, rfl⟩, h⟩
    exact ⟨part, t', inner, hpart, rfl, h⟩
  · rintro ⟨part, t', inner, hpart, rfl, h⟩
    exact ⟨part, t', some part, rfl, ⟨⟨inner, hpart⟩, rfl⟩, h⟩

end

/-- What is found is a way to take a text that what comes after accepts. -/
lemma exists_takes_of_first? {r : α} (h : p.first? x mark andThen = some r) :
    ∃ t rest mark', x.rest = t ++ rest ∧ p.Takes x.last t rest mark mark'
      ∧ andThen (x.past t rest) mark' = some r := by
  induction p generalizing x mark andThen with
  | exactly text =>
      rw [first?] at h
      obtain ⟨y, hy, h⟩ := Option.bind_eq_some_iff.1 h
      obtain ⟨rest, hrest, rfl⟩ := Place.afterText?_eq_some_iff.1 hy
      exact ⟨text, rest, mark, hrest, ⟨rfl, rfl⟩, h⟩
  | one member =>
      rw [first?] at h
      obtain ⟨y, hy, h⟩ := Option.bind_eq_some_iff.1 h
      obtain ⟨c, rest, hc, hrest, rfl⟩ := Place.afterOne?_eq_some_iff.1 hy
      exact ⟨[c], rest, mark, hrest, ⟨⟨c, hc, rfl⟩, rfl⟩, h⟩
  | many member least greedy =>
      rw [first?] at h
      obtain ⟨y, hy, h⟩ := List.exists_of_findSome?_eq_some h
      have hstop : y ∈ x.stops member least := by cases greedy <;> simpa using hy
      obtain ⟨t, rest, hrest, hall, hleast, rfl⟩ := Place.mem_stops_iff.1 hstop
      exact ⟨t, rest, mark, hrest, ⟨⟨hall, hleast⟩, rfl⟩, h⟩
  | optional p ih =>
      rw [first?] at h
      split at h
      · rename_i found hfound
        obtain ⟨t, rest, mark', hrest, htakes, hr⟩ := ih (hfound.trans h)
        exact ⟨t, rest, mark', hrest, .inl htakes, hr⟩
      · exact ⟨[], x.rest, mark, rfl, .inr ⟨rfl, rfl⟩, h⟩
  | either p q ihp ihq =>
      rw [first?] at h
      split at h
      · rename_i found hfound
        obtain ⟨t, rest, mark', hrest, htakes, hr⟩ := ihp (hfound.trans h)
        exact ⟨t, rest, mark', hrest, .inl htakes, hr⟩
      · obtain ⟨t, rest, mark', hrest, htakes, hr⟩ := ihq h
        exact ⟨t, rest, mark', hrest, .inr htakes, hr⟩
  | both p q ihp ihq =>
      rw [first?] at h
      obtain ⟨first, rest', between, hrest', hfirst, h⟩ := ihp h
      obtain ⟨second, rest, mark', hrest, hsecond, hr⟩ := ihq h
      rw [Place.rest_past] at hrest
      subst hrest
      refine ⟨first ++ second, rest, mark', ?_, ⟨first, second, between, rfl, hfirst, hsecond⟩, ?_⟩
      · rw [hrest', List.append_assoc]
      · rwa [Place.past_past] at hr
  | marked p ih =>
      rw [first?] at h
      obtain ⟨t, rest, inner, hrest, htakes, hr⟩ := ih h
      rw [Place.textTo_past hrest] at hr
      exact ⟨t, rest, some t, hrest, ⟨⟨inner, htakes⟩, rfl⟩, hr⟩
  | lineStart =>
      rw [first?] at h
      split_ifs at h with hopens
      exact ⟨[], x.rest, mark, rfl, ⟨hopens, rfl, rfl⟩, h⟩
  | wordEdge =>
      rw [first?] at h
      split_ifs at h with hedge
      exact ⟨[], x.rest, mark, rfl, ⟨hedge, rfl, rfl⟩, h⟩

/-- If nothing is found, what comes after accepts no way to take a text. -/
lemma not_takes_of_first? (h : p.first? x mark andThen = none) (hrest : x.rest = t ++ rest)
    (htakes : p.Takes x.last t rest mark mark') : andThen (x.past t rest) mark' = none := by
  induction p generalizing x mark mark' andThen t rest with
  | exactly text =>
      obtain ⟨rfl, rfl⟩ := htakes
      rw [first?, Place.afterText?_eq_some_iff.2 ⟨rest, hrest, rfl⟩] at h
      exact h
  | one member =>
      obtain ⟨⟨c, hc, rfl⟩, rfl⟩ := htakes
      rw [first?, Place.afterOne?_eq_some_iff.2 ⟨c, rest, hc, hrest, rfl⟩] at h
      exact h
  | many member least greedy =>
      obtain ⟨⟨hall, hleast⟩, rfl⟩ := htakes
      have hstop := Place.mem_stops_iff.2 ⟨t, rest, hrest, hall, hleast, rfl⟩
      rw [first?, List.findSome?_eq_none_iff] at h
      exact h _ (by cases greedy <;> simpa using hstop)
  | optional p ih =>
      rw [first?] at h
      split at h
      · cases h
      · rename_i hnone
        rcases htakes with htakes | ⟨rfl, rfl⟩
        · exact ih hnone hrest htakes
        · rw [List.nil_append] at hrest
          rwa [← hrest, Place.past_nil]
  | either p q ihp ihq =>
      rw [first?] at h
      split at h
      · cases h
      · rename_i hnone
        exact htakes.elim (ihp hnone hrest) (ihq h hrest)
  | both p q ihp ihq =>
      obtain ⟨first, second, between, rfl, hfirst, hsecond⟩ := htakes
      rw [first?] at h
      have hnone := ihp h (by rw [hrest, List.append_assoc]) hfirst
      have hlast := ihq hnone rfl hsecond
      rwa [Place.past_past] at hlast
  | marked p ih =>
      obtain ⟨⟨inner, htakes⟩, rfl⟩ := htakes
      rw [first?] at h
      have hnone := ih h hrest htakes
      rwa [Place.textTo_past hrest] at hnone
  | lineStart =>
      obtain ⟨hopens, rfl, rfl⟩ := htakes
      rw [List.nil_append] at hrest
      have hplace : x.opensLine = true := hopens
      rw [first?, if_pos hplace] at h
      rwa [← hrest, Place.past_nil]
  | wordEdge =>
      obtain ⟨hedge, rfl, rfl⟩ := htakes
      rw [List.nil_append] at hrest hedge
      have hplace : x.isWordEdge = true := by rw [← hedge, ← hrest]; rfl
      rw [first?, if_pos hplace] at h
      rwa [← hrest, Place.past_nil]

/-! ## What is marked -/

/-- The patterns whose texts are marked. -/
def parts : Pattern → List Pattern
  | optional p => parts p
  | either p q | both p q => parts p ++ parts q
  | marked p => [p]
  | _ => []

/-- What is marked on the way is a text inside that one of the marked parts takes. -/
lemma Takes.marks {last : Option Char} (h : p.Takes last t rest mark mark') : mark' = mark ∨
    ∃ q ∈ p.parts, ∃ last part rest inner inner', part <:+: t
      ∧ q.Takes last part rest inner inner' ∧ mark' = some part := by
  induction p generalizing last t rest mark mark' with
  | exactly | one | many => exact .inl h.2
  | optional p ih => exact h.elim ih fun h => .inl h.2
  | either p q ihp ihq =>
      rcases h with h | h
      · refine (ihp h).imp_right ?_
        rintro ⟨q', hq', hpart⟩
        exact ⟨q', List.mem_append_left _ hq', hpart⟩
      · refine (ihq h).imp_right ?_
        rintro ⟨q', hq', hpart⟩
        exact ⟨q', List.mem_append_right _ hq', hpart⟩
  | both p q ihp ihq =>
      obtain ⟨first, second, between, rfl, hfirst, hsecond⟩ := h
      rcases ihq hsecond with rfl | ⟨q', hq', last', part, rest', inner, inner', hinside, htakes, hmark⟩
      · refine (ihp hfirst).imp_right ?_
        rintro ⟨q', hq', last', part, rest', inner, inner', hinside, htakes, hmark⟩
        exact ⟨q', List.mem_append_left _ hq', last', part, rest', inner, inner',
          hinside.trans (List.prefix_append first second).isInfix, htakes, hmark⟩
      · exact .inr ⟨q', List.mem_append_right _ hq', last', part, rest', inner, inner',
          hinside.trans (List.suffix_append first second).isInfix, htakes, hmark⟩
  | marked p ih =>
      obtain ⟨⟨inner, htakes⟩, rfl⟩ := h
      exact .inr ⟨p, List.mem_singleton_self p, last, t, rest, mark, inner, List.infix_rfl, htakes, rfl⟩
  | lineStart | wordEdge => exact .inl h.2.2

/-! ## Searching a text -/

variable {resume n : Nat} {last : Option Char} {cs u w : List Char} {found : List Mark}

lemma exists_takes_of_matchAt? (h : p.matchAt? x = some (y, mark)) :
    ∃ t rest, x.rest = t ++ rest ∧ p.Takes x.last t rest none mark ∧ y = x.past t rest := by
  obtain ⟨t, rest, mark', hrest, htakes, hfound⟩ := exists_takes_of_first? h
  cases hfound
  exact ⟨t, rest, hrest, htakes, rfl⟩

lemma matchAt?_ne_none (hrest : x.rest = t ++ rest) (htakes : p.Takes x.last t rest none mark) :
    p.matchAt? x ≠ none := fun hnone => by
  cases not_takes_of_first? hnone hrest htakes

/-- What was found stays. -/
lemma mem_findFrom_of_mem (h : mark ∈ found) : mark ∈ p.findFrom resume n last cs found := by
  fun_induction findFrom p resume n last cs found with
  | case1 | case3 => exact h
  | case2 => exact List.mem_cons_of_mem _ h
  | case4 _ _ _ _ _ _ _ ih => exact ih h
  | case5 _ _ _ _ _ _ _ _ _ _ ih => exact ih (List.mem_cons_of_mem _ h)
  | case6 _ _ _ _ _ _ _ _ ih => exact ih h

/-- What is found anew was marked in a match. -/
lemma exists_takes_of_mem_findFrom (h : mark ∈ p.findFrom resume n last cs found) :
    mark ∈ found ∨ ∃ last t rest, t <:+: cs ∧ p.Takes last t rest none mark := by
  fun_induction findFrom p resume n last cs found with
  | case1 | case3 => exact .inl h
  | case2 _ _ _ _ _ _ _ hmatch =>
      obtain ⟨t, rest, hrest, htakes, -⟩ := exists_takes_of_matchAt? hmatch
      rcases List.mem_cons.1 h with rfl | h
      · exact .inr ⟨_, t, rest, ⟨[], rest, hrest.symm⟩, htakes⟩
      · exact .inl h
  | case4 _ _ _ c cs _ _ ih | case6 _ _ _ c cs _ _ _ ih =>
      refine (ih h).imp_right ?_
      rintro ⟨last, t, rest, hinside, htakes⟩
      exact ⟨last, t, rest, hinside.trans (List.suffix_cons c cs).isInfix, htakes⟩
  | case5 _ _ _ c cs _ _ _ _ hmatch ih =>
      obtain ⟨t, rest, hrest, htakes, -⟩ := exists_takes_of_matchAt? hmatch
      rcases ih h with hfound | ⟨last, t, rest, hinside, htakes⟩
      · rcases List.mem_cons.1 hfound with rfl | h
        · exact .inr ⟨_, t, rest, ⟨[], rest, hrest.symm⟩, htakes⟩
        · exact .inl h
      · exact .inr ⟨last, t, rest, hinside.trans (List.suffix_cons c cs).isInfix, htakes⟩

/-- A match that begins in `u` ends there if what comes next is `w`. -/
def EndsBefore (p : Pattern) (u w : List Char) : Prop :=
  ∀ a b last t rest mark, u = a ++ b → b ≠ [] → b ++ w = t ++ rest → p.Takes last t rest none mark →
    t.length ≤ b.length

/-- The pattern matches at the beginning of `w`, which stands after `last`, and marks nothing else. -/
structure Marks (p : Pattern) (last : Option Char) (w : List Char) (mark : Mark) : Prop where
  takes : ∃ t rest, w = t ++ rest ∧ p.Takes last t rest none mark
  only : ∀ t rest mark', w = t ++ rest → p.Takes last t rest none mark' → mark' = mark

lemma Marks.matchAt? (h : p.Marks last w mark) (n : Nat) :
    ∃ y, p.matchAt? ⟨n, last, w⟩ = some (y, mark) := by
  obtain ⟨t, rest, hw, htakes⟩ := h.takes
  have hfound := matchAt?_ne_none (x := ⟨n, last, w⟩) hw htakes
  obtain ⟨⟨y, mark'⟩, hmatch⟩ := Option.ne_none_iff_exists'.1 hfound
  obtain ⟨t', rest', hw', htakes', -⟩ := exists_takes_of_matchAt? hmatch
  rw [h.only t' rest' mark' hw' htakes'] at hmatch
  exact ⟨y, hmatch⟩

/-- If all matches before end in time, what is marked next is found. -/
lemma Marks.mem_findFrom (h : p.Marks (u.getLast?.or last) w mark) (hends : p.EndsBefore u w)
    (hresume : resume ≤ n + u.length) : mark ∈ p.findFrom resume n last (u ++ w) found := by
  -- along the text, the search never resumes after the place where `w` begins
  induction u generalizing resume n last found with
  | nil =>
      have hready : ¬n < resume := by simpa using hresume
      rw [List.getLast?_nil, Option.none_or] at h
      obtain ⟨y, hmatch⟩ := h.matchAt? n
      rw [List.nil_append]
      cases w with
      | nil =>
          rw [findFrom, if_neg hready, hmatch]
          exact List.mem_cons_self
      | cons c cs =>
          rw [findFrom, if_neg hready, hmatch]
          exact mem_findFrom_of_mem List.mem_cons_self
  | cons c u ih =>
      have hlast : (c :: u).getLast?.or last = u.getLast?.or (some c) := by
        rw [List.getLast?_cons, Option.some_or]
        cases u.getLast? <;> rfl
      rw [hlast] at h
      have hends' : p.EndsBefore u w := fun a b last t rest mark hu =>
        hends (c :: a) b last t rest mark (congrArg (c :: ·) hu)
      have hlength : n + (c :: u).length = n + 1 + u.length := by
        rw [List.length_cons, Nat.add_assoc, Nat.add_comm 1]
      rw [hlength] at hresume
      rw [List.cons_append, findFrom]
      split
      · exact ih h hends' hresume
      · split
        · rename_i y mark' hmatch
          obtain ⟨t, rest, hrest, htakes, rfl⟩ := exists_takes_of_matchAt? hmatch
          have hle := hends [] (c :: u) last t rest mark' rfl (List.cons_ne_nil c u) hrest htakes
          refine ih h hends' ?_
          rw [← hlength]
          exact Nat.add_le_add_left hle n
        · exact ih h hends' hresume

lemma mem_findAll_iff {s : String} :
    s ∈ p.findAll cs ↔ some s.toList ∈ p.findFrom 0 0 none cs [] := by
  have hof : ∀ mark : Mark, mark.map String.ofList = some s ↔ mark = some s.toList := by
    intro mark
    rw [Option.map_eq_some_iff]
    constructor
    · rintro ⟨part, rfl, rfl⟩
      rw [String.toList_ofList]
    · rintro rfl
      exact ⟨s.toList, rfl, String.ofList_toList⟩
  simp [findAll, hof]

/-- What is found is a text inside that a marked part takes. -/
lemma exists_takes_of_mem_findAll {s : String} (h : s ∈ p.findAll cs) : s.toList <:+: cs ∧
    ∃ q ∈ p.parts, ∃ last rest inner inner', q.Takes last s.toList rest inner inner' := by
  obtain hnone | ⟨last, t, rest, hinside, htakes⟩ := exists_takes_of_mem_findFrom (mem_findAll_iff.1 h)
  · cases hnone
  · obtain hnone | ⟨q, hq, last', part, rest', inner, inner', hpart, htakes', hmark⟩ := htakes.marks
    · cases hnone
    · cases hmark
      exact ⟨hpart.trans hinside, q, hq, last', rest', inner, inner', htakes'⟩

/-- The mark of a match is found if all matches before end in time. -/
lemma Marks.mem_findAll {s : List Char} (h : p.Marks u.getLast? w (some s)) (hends : p.EndsBefore u w) :
    String.ofList s ∈ p.findAll (u ++ w) := by
  rw [mem_findAll_iff, String.toList_ofList]
  rw [← Option.or_none (o := u.getLast?)] at h
  exact h.mem_findFrom hends (Nat.zero_le _)

end Pattern
end Rebuild.Text
