import Mathlib.Data.List.Basic
import Mathlib.Tactic.Common
import Rebuild.Imports.Relative
import Rebuild.Proofs.Text.Pattern

/-!
# Calls of require

Whether the pattern of a `require` finds a call depends on what is around the call: a match that begins
before it and goes on into it would swallow it.  There is no such match.

* **Specifiers.**  `takes_specifierBody`: what the marked part of the patterns takes.
* **Calls.**  A `RequireCall` is the text that the pattern takes, in its parts
  (`takes_requireCall`).
* **Two calls.**  A call is a text in quotes (`Quotation`), and what closes it is blank up to a
  parenthesis.  So a call that goes on into another one could only end before the quotes of that
  (`eq_nil_of_ends_in_head`), in its specifier (`not_ends_in_body`) or after it (`head_eq_of_text`), and
  it does none of these: `RequireCall.length_text_le`.
-/

namespace Rebuild.Imports

open Text Pattern

variable {member : Char → Bool} {last : Option Char} {s t rest : List Char} {mark mark' : Mark}

/-! ## Cutting at quotes -/

lemma isQuote_of_isBlank {c : Char} (h : isBlank c = true) : isQuote c = false := by
  by_contra hquote
  rw [Bool.not_eq_false, isQuote, Bool.or_eq_true, beq_iff_eq, beq_iff_eq] at hquote
  rcases hquote with rfl | rfl <;> exact absurd h (by decide)

section

variable {α : Type} {p : α → Bool} {a a' b b' : List α} {x x' : α}

lemma isPrefix_append_iff : a <+: b ++ b' ↔ a <+: b ∨ ∃ l, a = b ++ l ∧ l <+: b' := by
  constructor
  · rintro ⟨more, hmore⟩
    obtain ⟨l, hl, -⟩ | ⟨l, rfl, hl⟩ := List.append_eq_append_iff.1 hmore
    · exact .inl ⟨l, hl.symm⟩
    · exact .inr ⟨l, rfl, more, hl.symm⟩
  · rintro (h | ⟨l, rfl, h⟩)
    · exact h.trans (List.prefix_append b b')
    · exact (List.prefix_append_right_inj b).2 h

/-- There is one way to cut a list at the first element of a class. -/
lemma eq_of_first (ha : ∀ y ∈ a, p y = false) (ha' : ∀ y ∈ a', p y = false) (hx : p x = true)
    (hx' : p x' = true) (h : a ++ x :: b = a' ++ x' :: b') : a = a' ∧ b = b' := by
  have hcut : ∀ {l r : List α} {z : α}, (∀ y ∈ l, p y = false) → p z = true →
      (l ++ z :: r).takeWhile (fun y => !p y) = l ∧ (l ++ z :: r).dropWhile (fun y => !p y) = z :: r := by
    intro l r z hl hz
    have hall : ∀ y ∈ l, (!p y) = true := fun y hy => by rw [hl y hy]; rfl
    rw [List.takeWhile_append_of_pos hall, List.dropWhile_append_of_pos hall]
    simp [hz]
  obtain ⟨htake, hdrop⟩ := hcut (r := b) ha hx
  obtain ⟨htake', hdrop'⟩ := hcut (r := b') ha' hx'
  rw [h] at htake hdrop
  exact ⟨htake.symm.trans htake', (List.cons_eq_cons.1 (hdrop.symm.trans hdrop')).2⟩

/-- There is one way to cut a list at the last element of a class. -/
lemma eq_of_last (hb : ∀ y ∈ b, p y = false) (hb' : ∀ y ∈ b', p y = false) (hx : p x = true)
    (hx' : p x' = true) (h : a ++ x :: b = a' ++ x' :: b') : a = a' ∧ b = b' := by
  have hreverse : b.reverse ++ x :: a.reverse = b'.reverse ++ x' :: a'.reverse := by
    simpa using congrArg List.reverse h
  obtain ⟨hback, hfront⟩ := eq_of_first (by simpa using hb) (by simpa using hb') hx hx' hreverse
  exact ⟨List.reverse_injective hfront, List.reverse_injective hback⟩

end

/-! ## Specifiers -/

/-- A specifier of a file: `./` or `../`, at least one more character, and no quote. -/
structure IsRelative (s : List Char) : Prop where
  begins : ∃ name, name ≠ [] ∧ (s = "./".toList ++ name ∨ s = "../".toList ++ name)
  unquoted : ∀ c ∈ s, isQuote c = false

lemma isUnquoted_iff {c : Char} : isUnquoted c = true ↔ isQuote c = false := by
  rw [isUnquoted, isQuote, Bool.not_eq_true']

/-- What the pattern of a specifier marks. -/
def specifierBody (member : Char → Bool) : Pattern :=
  Pattern.sequence [.either (.exactly ['.', '.']) (.exactly ['.']), .exactly ['/'], .many member 1 true]

lemma takes_specifierBody : (specifierBody member).Takes last s rest mark mark' ↔
    (∃ name, name ≠ [] ∧ (s = "./".toList ++ name ∨ s = "../".toList ++ name)
      ∧ ∀ c ∈ name, member c = true) ∧ mark' = mark := by
  simp only [specifierBody, Pattern.sequence, Takes]
  constructor
  · rintro ⟨_, _, _, rfl, ⟨rfl, rfl⟩ | ⟨rfl, rfl⟩, _, name, _, rfl, ⟨rfl, rfl⟩, ⟨hall, hne⟩, rfl⟩
    · exact ⟨⟨name, List.length_pos_iff.1 hne, .inr rfl, hall⟩, rfl⟩
    · exact ⟨⟨name, List.length_pos_iff.1 hne, .inl rfl, hall⟩, rfl⟩
  · rintro ⟨⟨name, hne, rfl | rfl, hall⟩, rfl⟩
    · exact ⟨['.'], '/' :: name, _, rfl, .inr ⟨rfl, rfl⟩, ['/'], name, _, rfl, ⟨rfl, rfl⟩,
        ⟨hall, List.length_pos_iff.2 hne⟩, rfl⟩
    · exact ⟨['.', '.'], '/' :: name, _, rfl, .inl ⟨rfl, rfl⟩, ['/'], name, _, rfl, ⟨rfl, rfl⟩,
        ⟨hall, List.length_pos_iff.2 hne⟩, rfl⟩

lemma isRelative_of_takes (hmember : ∀ c, member c = true → isUnquoted c = true)
    (h : (specifierBody member).Takes last s rest mark mark') : IsRelative s := by
  obtain ⟨⟨name, hne, hs, hall⟩, -⟩ := takes_specifierBody.1 h
  have hname : ∀ c ∈ name, isQuote c = false := fun c hc => isUnquoted_iff.1 (hmember c (hall c hc))
  have hdots : ∀ c ∈ "../".toList, isQuote c = false := by simp [isQuote]
  refine ⟨⟨name, hne, hs⟩, ?_⟩
  rcases hs with rfl | rfl
  · exact List.forall_mem_append.2 ⟨fun c hc => hdots c (List.mem_cons_of_mem _ hc), hname⟩
  · exact List.forall_mem_append.2 ⟨hdots, hname⟩

lemma takes_of_isRelative (h : IsRelative s) (last : Option Char) (rest : List Char) (mark : Mark) :
    (specifierBody isUnquoted).Takes last s rest mark mark := by
  obtain ⟨⟨name, hne, hs⟩, hunquoted⟩ := h
  refine takes_specifierBody.2 ⟨⟨name, hne, hs, fun c hc => isUnquoted_iff.2 (hunquoted c ?_)⟩, rfl⟩
  rcases hs with rfl | rfl <;> exact List.mem_append_right _ hc

/-! ## Texts in quotes -/

/-- A blank, or the parenthesis that closes a call. -/
def Closes (x : Char) : Prop := isBlank x = true ∨ x = ')'

/-- A text in quotes, with what stands before it, and what closes it. -/
structure Quotation where
  head : List Char
  opening : Char
  body : List Char
  closing : Char
  tail : List Char
  isQuote_head : ∀ x ∈ head, isQuote x = false
  isQuote_opening : isQuote opening = true
  isQuote_body : ∀ x ∈ body, isQuote x = false
  isQuote_closing : isQuote closing = true
  closes_tail : ∀ x ∈ tail, Closes x
  tail_ne_nil : tail ≠ []

namespace Quotation

/-- The whole text. -/
def text (c : Quotation) : List Char := c.head ++ c.opening :: (c.body ++ c.closing :: c.tail)

variable {c d : Quotation} {u v r : List Char}

lemma isQuote_tail (c : Quotation) : ∀ x ∈ c.tail, isQuote x = false := by
  intro x hx
  rcases c.closes_tail x hx with hblank | rfl
  · exact isQuote_of_isBlank hblank
  · rfl

/-- What closes a text in quotes begins nothing else. -/
lemma eq_nil_of_isSuffix_tail (h : t <:+ c.tail) (ht : ∀ x ∈ t.head?, ¬Closes x) : t = [] := by
  cases t with
  | nil => rfl
  | cons x t => exact absurd (c.closes_tail x (h.subset List.mem_cons_self)) (ht x rfl)

lemma head?_of_isPrefix {l : List Char} (h : t <+: l) (hl : ∀ x ∈ l.head?, ¬Closes x) :
    ∀ x ∈ t.head?, ¬Closes x := by
  intro x hx
  obtain ⟨more, rfl⟩ := h
  refine hl x ?_
  rw [List.head?_append, Option.mem_def.1 hx]
  rfl

/-- Two quotes are in it. -/
lemma countP_text (c : Quotation) : c.text.countP isQuote = 2 := by
  have hnone : ∀ l : List Char, (∀ x ∈ l, isQuote x = false) → l.countP isQuote = 0 :=
    fun l hl => List.countP_eq_zero.2 fun x hx => by rw [hl x hx]; decide
  unfold text
  rw [List.countP_append, List.countP_cons_of_pos c.isQuote_opening, List.countP_append,
    List.countP_cons_of_pos c.isQuote_closing, hnone _ c.isQuote_head, hnone _ c.isQuote_body,
    hnone _ c.isQuote_tail]

lemma text_eq_last (c : Quotation) :
    c.text = (c.head ++ c.opening :: c.body) ++ c.closing :: c.tail := by
  unfold text
  rw [List.append_assoc, List.cons_append]

/-- What it ends with is after its quotes if it has none. -/
lemma isSuffix_tail (h : c.text = u ++ t) (ht : ∀ x ∈ t, isQuote x = false) : t <:+ c.tail := by
  have hclosing : c.closing ∉ t := by
    intro hmem
    have hquote := ht c.closing hmem
    rw [c.isQuote_closing] at hquote
    cases hquote
  have hsuffix : t <:+ c.text := ⟨u, h.symm⟩
  rw [text_eq_last] at hsuffix
  rcases List.suffix_or_suffix_of_suffix hsuffix (List.suffix_append _ _) with hshort | hlong
  · rcases List.suffix_cons_iff.1 hshort with rfl | htail
    · exact absurd List.mem_cons_self hclosing
    · exact htail
  · exact absurd (hlong.subset List.mem_cons_self) hclosing

lemma eq_nil_of_ends_in_head (hhead : ∀ x ∈ d.head.head?, ¬Closes x) (h : c.text = u ++ t)
    (ht : t <+: d.head) : t = [] := by
  have hquote : ∀ x ∈ t, isQuote x = false := fun x hx => d.isQuote_head x (ht.subset hx)
  exact eq_nil_of_isSuffix_tail (isSuffix_tail h hquote) (head?_of_isPrefix ht hhead)

lemma not_ends_in_body (hbody : ∀ x ∈ d.body.head?, ¬Closes x)
    (h : c.text = u ++ (d.head ++ d.opening :: t)) (ht : t <+: d.body) : False := by
  have hquote : ∀ x ∈ t, isQuote x = false := fun x hx => d.isQuote_body x (ht.subset hx)
  rw [text_eq_last, ← List.append_assoc] at h
  obtain ⟨-, rfl⟩ := eq_of_last c.isQuote_tail hquote c.isQuote_closing d.isQuote_opening h
  exact c.tail_ne_nil (eq_nil_of_isSuffix_tail List.suffix_rfl (head?_of_isPrefix ht hbody))

lemma head_eq_of_text (h : c.text = u ++ (d.head ++ d.opening :: (d.body ++ d.closing :: t))) :
    c.head = u ++ d.head := by
  have hquotes := congrArg (List.countP isQuote) h
  rw [countP_text, List.countP_append, List.countP_append, List.countP_cons_of_pos d.isQuote_opening,
    List.countP_append, List.countP_cons_of_pos d.isQuote_closing] at hquotes
  have hu : u.countP isQuote = 0 := by omega
  have hfront : ∀ x ∈ u ++ d.head, isQuote x = false := by
    refine List.forall_mem_append.2 ⟨fun x hx => ?_, d.isQuote_head⟩
    exact Bool.eq_false_iff.2 (List.countP_eq_zero.1 hu x hx)
  unfold text at h
  rw [← List.append_assoc] at h
  exact (eq_of_first c.isQuote_head hfront c.isQuote_opening d.isQuote_opening h).1

/-- A text in quotes that begins before another one ends before it, too, unless what stands before the
other one is the end of what stands before the first. -/
lemma length_text_le (hhead : ∀ x ∈ d.head.head?, ¬Closes x) (hbody : ∀ x ∈ d.body.head?, ¬Closes x)
    (hheads : c.head ≠ u ++ d.head) (h : u ++ (d.text ++ v) = c.text ++ r) :
    c.text.length ≤ u.length := by
  obtain ⟨m, hm, hr⟩ | ⟨m, rfl, -⟩ := List.append_eq_append_iff.1 h
  swap
  · rw [List.length_append]
    exact Nat.le_add_right _ _
  -- `m` is the part of the first text that the other one would share with it
  have hshort : m <+: d.head → c.text.length ≤ u.length := by
    intro hm_head
    rw [hm, eq_nil_of_ends_in_head hhead hm hm_head]
    simp
  have hbegins : m <+: d.head ++ d.opening :: (d.body ++ d.closing :: (d.tail ++ v)) := by
    refine ⟨r, ?_⟩
    rw [← hr]
    unfold text
    simp only [List.append_assoc, List.cons_append]
  obtain hm_head | ⟨m, rfl, hm1⟩ := isPrefix_append_iff.1 hbegins
  · exact hshort hm_head
  obtain rfl | ⟨m, rfl, hm2⟩ := List.prefix_cons_iff.1 hm1
  · exact hshort (by simp)
  obtain hm_body | ⟨m, rfl, hm3⟩ := isPrefix_append_iff.1 hm2
  · exact (not_ends_in_body hbody hm hm_body).elim
  obtain rfl | ⟨m, rfl, -⟩ := List.prefix_cons_iff.1 hm3
  · exact (not_ends_in_body hbody hm (by simp)).elim
  · exact absurd (head_eq_of_text hm) hheads

/-- What is in the quotes can be read off a text that begins with them. -/
lemma body_eq (h : c.text ++ v = d.text ++ r) : c.body = d.body := by
  unfold text at h
  simp only [List.append_assoc, List.cons_append] at h
  have hrest := (eq_of_first c.isQuote_head d.isQuote_head c.isQuote_opening d.isQuote_opening h).2
  exact (eq_of_first c.isQuote_body d.isQuote_body c.isQuote_closing d.isQuote_closing hrest).1

end Quotation

/-! ## Calls -/

/-- The parts of a call of `require` with a relative specifier. -/
structure RequireCall where
  before : List Char
  opening : Char
  specifier : List Char
  closing : Char
  after : List Char
  blank_before : ∀ c ∈ before, isBlank c = true
  isQuote_opening : isQuote opening = true
  isRelative : IsRelative specifier
  isQuote_closing : isQuote closing = true
  blank_after : ∀ c ∈ after, isBlank c = true

namespace RequireCall

/-- What is before the quotes. -/
def head (c : RequireCall) : List Char := "require(".toList ++ c.before

/-- What is after the quotes. -/
def tail (c : RequireCall) : List Char := c.after ++ [')']

/-- The text of a call. -/
def text (c : RequireCall) : List Char :=
  c.head ++ c.opening :: (c.specifier ++ c.closing :: c.tail)

lemma text_eq (c : RequireCall) : c.text = "require(".toList
    ++ (c.before ++ c.opening :: (c.specifier ++ c.closing :: (c.after ++ [')']))) := by
  unfold text head tail
  exact List.append_assoc _ _ _

variable {c d : RequireCall} {u v r : List Char}

/-- A call as a text in quotes. -/
def quotation (c : RequireCall) : Quotation where
  head := c.head
  opening := c.opening
  body := c.specifier
  closing := c.closing
  tail := c.tail
  isQuote_head := List.forall_mem_append.2
    ⟨by simp [isQuote], fun x hx => isQuote_of_isBlank (c.blank_before x hx)⟩
  isQuote_opening := c.isQuote_opening
  isQuote_body := c.isRelative.unquoted
  isQuote_closing := c.isQuote_closing
  closes_tail := List.forall_mem_append.2
    ⟨fun x hx => .inl (c.blank_after x hx), fun _ hx => .inr (List.mem_singleton.1 hx)⟩
  tail_ne_nil := List.append_ne_nil_of_right_ne_nil _ (by simp)

lemma head_eq (c : RequireCall) : c.head = "require".toList ++ '(' :: c.before := by
  have hword : "require(".toList = "require".toList ++ ['('] := by decide
  unfold head
  rw [hword, List.append_assoc, List.singleton_append]

/-- What is before the quotes of a call does not end like that. -/
lemma eq_nil_of_head (h : c.head = u ++ d.head) : u = [] := by
  have hopen : ∀ e : RequireCall, ∀ x ∈ e.before, (x == '(') = false := by
    intro e x hx
    refine beq_eq_false_iff_ne.2 ?_
    rintro rfl
    exact absurd (e.blank_before _ hx) (by decide)
  rw [c.head_eq, d.head_eq, ← List.append_assoc] at h
  have hword := (eq_of_last (p := fun x => x == '(') (hopen c) (hopen d) rfl rfl h).1
  exact List.self_eq_append_left.1 hword

lemma not_closes_head (d : RequireCall) : ∀ x ∈ d.head.head?, ¬Closes x := by
  intro x hx
  rw [d.head_eq] at hx
  cases hx
  exact not_or.2 ⟨by decide, by decide⟩

lemma not_closes_specifier (d : RequireCall) : ∀ x ∈ d.specifier.head?, ¬Closes x := by
  intro x hx
  obtain ⟨name, -, hs | hs⟩ := d.isRelative.begins
  all_goals
    rw [hs] at hx
    cases hx
    exact not_or.2 ⟨by decide, by decide⟩

/-- A call that begins before another one ends before it, too. -/
lemma length_text_le (hu : u ≠ []) (h : u ++ (d.text ++ v) = c.text ++ r) :
    c.text.length ≤ u.length := by
  have hheads : c.quotation.head ≠ u ++ d.quotation.head := fun heq => hu (eq_nil_of_head heq)
  exact Quotation.length_text_le d.not_closes_head d.not_closes_specifier hheads h

/-- What a call is for can be read off a text that begins with the call. -/
lemma specifier_eq (h : c.text ++ v = d.text ++ r) : c.specifier = d.specifier :=
  Quotation.body_eq (c := c.quotation) (d := d.quotation) h

end RequireCall

lemma requireCall_eq : requireCall = Pattern.sequence [.exactly "require(".toList,
    .many isBlank 0 true, .one isQuote, .marked (specifierBody isUnquoted), .one isQuote,
    .many isBlank 0 true, .exactly [')']] := rfl

lemma takes_requireCall : requireCall.Takes last t rest mark mark' ↔
    ∃ c : RequireCall, t = c.text ∧ mark' = some c.specifier := by
  simp only [requireCall_eq, Pattern.sequence, takes_exactly_both, takes_many_both, takes_one_both,
    takes_marked_both]
  constructor
  · rintro ⟨_, rfl, before, _, hbefore, -, rfl, opening, _, hopening, rfl, specifier, _, inner,
      hspecifier, rfl, closing, _, hclosing, rfl, after, _, hafter, -, rfl, rfl, rfl⟩
    let c : RequireCall := ⟨before, opening, specifier, closing, after, hbefore, hopening,
      isRelative_of_takes (fun _ h => h) hspecifier, hclosing, hafter⟩
    exact ⟨c, c.text_eq.symm, rfl⟩
  · rintro ⟨c, rfl, rfl⟩
    exact ⟨_, c.text_eq, c.before, _, c.blank_before, Nat.zero_le _, rfl, c.opening, _,
      c.isQuote_opening, rfl, c.specifier, _, mark, takes_of_isRelative c.isRelative _ _ _, rfl,
      c.closing, _, c.isQuote_closing, rfl, c.after, [')'], c.blank_after, Nat.zero_le _, rfl, rfl, rfl⟩

/-- At a call, the pattern matches and marks what the call is for. -/
lemma marks_text (c : RequireCall) (last : Option Char) (v : List Char) :
    requireCall.Marks last (c.text ++ v) (some c.specifier) where
  takes := ⟨c.text, v, rfl, takes_requireCall.2 ⟨c, rfl, rfl⟩⟩
  only t rest mark h htakes := by
    obtain ⟨d, rfl, rfl⟩ := takes_requireCall.1 htakes
    rw [RequireCall.specifier_eq h]

/-- Nothing that matches before a call goes on into it. -/
lemma endsBefore_text (u : List Char) (c : RequireCall) (v : List Char) :
    requireCall.EndsBefore u (c.text ++ v) := by
  intro a b last t rest mark _ hb h htakes
  obtain ⟨d, rfl, -⟩ := takes_requireCall.1 htakes
  exact RequireCall.length_text_le hb h

end Rebuild.Imports
