import Mathlib.Data.List.Basic
import Mathlib.Tactic.Common
import Rebuild.Imports.Package
import Rebuild.Proofs.Imports.Calls
import Rebuild.Proofs.Text

/-!
# Which packages a text refers to

A package is named by the beginning of a specifier, and a specifier by what stands around it.

* **Names.**  `package?_eq_some_iff`: a bare specifier lies in the package that its first part names, or
  its first two if there is a scope.
* **Calls.**  `takes_callOf`: what the pattern of a call takes.  As for `RequireCall`, no call goes on into
  another one, if the specifier of that one does not begin as a call ends (`QuotedCall.length_text_le`).
* **Endpoint.**  `refers_packages`: no such call is missed, and what is listed is the package of something
  that stands in the text.
-/

namespace Rebuild.Imports

open Text Pattern

/-! ## Names -/

/-- A specifier that is no path, no builtin of the runtime and no address. -/
structure IsBare (s : String) : Prop where
  begins : ∃ x l, s.toList = x :: l ∧ x ≠ '.' ∧ x ≠ '/'
  not_builtin : ¬"node:".toList <+: s.toList
  not_address : ¬"://".toList <:+: s.toList

/-- The specifier lies in the package: nothing follows the name, or a slash does. -/
def LiesIn (s name : List Char) : Prop := s = name ∨ ∃ rest, s = name ++ '/' :: rest

/-- The name of a package, which has a scope after an `@` or none. -/
inductive PackageName : List Char → Prop where
  | plain {name : List Char} (hslash : '/' ∉ name) (hat : name.head? ≠ some '@') : PackageName name
  | within {scope name : List Char} (hscope : '/' ∉ scope) (hname : '/' ∉ name) (hne : scope ≠ [])
      (hne' : name ≠ []) : PackageName ('@' :: scope ++ '/' :: name)

variable {s name : String} {last : Option Char} {t rest : List Char} {mark mark' : Mark}

lemma package?_eq (h : IsBare s) : package? s = packageOf? (split '/' s.toList) := by
  obtain ⟨x, l, hs, hdot, hslash⟩ := h.begins
  have hpath : ¬(s.toList.isEmpty || s.toList.head? == some '.' || s.toList.head? == some '/') = true := by
    simp [hs, hdot, hslash]
  have hother : ¬((dropStart? "node:".toList s.toList).isSome || s.contains "://") = true := by
    rw [Bool.or_eq_true, isSome_dropStart?, String.contains_string_iff, not_or]
    exact ⟨h.not_builtin, h.not_address⟩
  rw [package?, if_neg hpath, if_neg hother]

lemma isBare_of_package? (h : package? s = some name) : IsBare s := by
  rw [package?] at h
  split_ifs at h with hpath hother
  simp only [Bool.or_eq_true, not_or, List.isEmpty_iff, beq_iff_eq] at hpath
  simp only [Bool.or_eq_true, not_or, isSome_dropStart?, String.contains_string_iff] at hother
  refine ⟨?_, hother.1, hother.2⟩
  cases hs : s.toList with
  | nil => exact absurd hs hpath.1.1
  | cons x l =>
      rw [hs] at hpath
      exact ⟨x, l, rfl, fun hx => hpath.1.2 (hx ▸ rfl), fun hx => hpath.2 (hx ▸ rfl)⟩

lemma liesIn_of_split {cs first : List Char} {parts : List (List Char)}
    (h : split '/' cs = first :: parts) : LiesIn cs first :=
  (split_eq_cons_iff.1 h).2.imp And.left fun ⟨rest, hcs, _⟩ => ⟨rest, hcs⟩

lemma exists_split_of_liesIn {cs first : List Char} (hfirst : '/' ∉ first) (h : LiesIn cs first) :
    ∃ parts, split '/' cs = first :: parts := by
  obtain rfl | ⟨rest, rfl⟩ := h
  · exact ⟨_, split_of_not_mem hfirst⟩
  · exact ⟨_, split_append_cons hfirst⟩

lemma packageOf?_of_head? {first : List Char} {parts : List (List Char)} (h : first.head? ≠ some '@') :
    packageOf? (first :: parts) = some (String.ofList first) := by
  rw [packageOf?.eq_def]
  split
  · rename_i hparts
    cases hparts
    exact absurd rfl h
  · rename_i hparts
    cases hparts
    exact absurd rfl h
  · rename_i hparts
    cases hparts
    rfl
  · rename_i hparts
    cases hparts

/-- The parts between slashes name the package whose name they begin with. -/
lemma packageOf?_split_iff {cs : List Char} : packageOf? (split '/' cs) = some name ↔
    PackageName name.toList ∧ LiesIn cs name.toList := by
  constructor
  · intro h
    cases hsplit : split '/' cs with
    | nil => exact absurd hsplit (split_ne_nil _ _)
    | cons first parts =>
        rw [hsplit] at h
        obtain ⟨hfirst, hcs⟩ := split_eq_cons_iff.1 hsplit
        by_cases hat : first.head? = some '@'
        · obtain ⟨scope, rfl⟩ := List.head?_eq_some_iff.1 hat
          rcases hcs with ⟨-, rfl⟩ | ⟨rest, rfl, hparts⟩
          · cases h
          · cases parts with
            | nil => cases h
            | cons part more =>
                rw [packageOf?] at h
                split_ifs at h with hempty
                obtain ⟨hpart, hne⟩ := not_or.1 hempty
                cases h
                rw [String.toList_ofList]
                have hscope : '/' ∉ scope := fun hmem => hfirst (List.mem_cons_of_mem _ hmem)
                refine ⟨.within hscope (split_eq_cons_iff.1 hparts).1 hne hpart, ?_⟩
                refine (liesIn_of_split hparts).imp (fun hrest => ?_) ?_
                · rw [hrest]
                · rintro ⟨rest, rfl⟩
                  exact ⟨rest, by simp⟩
        · rw [packageOf?_of_head? hat] at h
          cases h
          rw [String.toList_ofList]
          exact ⟨.plain hfirst hat, liesIn_of_split hsplit⟩
  · rintro ⟨hname, hlies⟩
    generalize hcs : name.toList = text at hname hlies
    obtain rfl : name = String.ofList text := by rw [← hcs, String.ofList_toList]
    cases hname with
    | plain hslash hat =>
        obtain ⟨parts, hsplit⟩ := exists_split_of_liesIn hslash hlies
        rw [hsplit, packageOf?_of_head? hat]
    | @within scope part hscope hpart hne hne' =>
        have hfirst : '/' ∉ '@' :: scope := by simpa using hscope
        obtain ⟨rest, rfl, hrest⟩ : ∃ rest, cs = ('@' :: scope) ++ '/' :: rest ∧ LiesIn rest part := by
          obtain rfl | ⟨rest, rfl⟩ := hlies
          · exact ⟨part, rfl, .inl rfl⟩
          · exact ⟨part ++ '/' :: rest, by simp, .inr ⟨rest, rfl⟩⟩
        obtain ⟨parts, hsplit⟩ := exists_split_of_liesIn hpart hrest
        rw [split_append_cons hfirst, hsplit, packageOf?, if_neg (not_or.2 ⟨hne', hne⟩)]

/-- **The package of a specifier.** -/
lemma package?_eq_some_iff : package? s = some name ↔
    IsBare s ∧ PackageName name.toList ∧ LiesIn s.toList name.toList := by
  constructor
  · intro h
    have hbare := isBare_of_package? h
    rw [package?_eq hbare] at h
    exact ⟨hbare, packageOf?_split_iff.1 h⟩
  · rintro ⟨hbare, hname⟩
    rw [package?_eq hbare]
    exact packageOf?_split_iff.2 hname

/-! ## Calls -/

/-- The parts of a call of `import` or `require`. -/
structure QuotedCall where
  word : List Char
  gap : List Char
  before : List Char
  opening : Char
  specifier : List Char
  closing : Char
  after : List Char
  is_word : word = "import".toList ∨ word = "require".toList
  blank_gap : ∀ c ∈ gap, isBlank c = true
  blank_before : ∀ c ∈ before, isBlank c = true
  isQuote_opening : isQuote opening = true
  specifier_ne_nil : specifier ≠ []
  unquoted : ∀ c ∈ specifier, isQuote c = false
  isQuote_closing : isQuote closing = true
  blank_after : ∀ c ∈ after, isBlank c = true

namespace QuotedCall

/-- What is before the quotes. -/
def head (c : QuotedCall) : List Char := c.word ++ (c.gap ++ '(' :: c.before)

/-- What is after the quotes. -/
def tail (c : QuotedCall) : List Char := c.after ++ [')']

/-- The text of a call. -/
def text (c : QuotedCall) : List Char :=
  c.head ++ c.opening :: (c.specifier ++ c.closing :: c.tail)

variable {c d : QuotedCall} {u v r : List Char}

lemma text_eq (c : QuotedCall) : c.text = c.word ++ (c.gap ++ '(' :: (c.before
    ++ c.opening :: (c.specifier ++ c.closing :: (c.after ++ [')'])))) := by
  unfold text head tail
  simp only [List.append_assoc, List.cons_append]

/-- A call as a text in quotes. -/
def quotation (c : QuotedCall) : Quotation where
  head := c.head
  opening := c.opening
  body := c.specifier
  closing := c.closing
  tail := c.tail
  isQuote_head := by
    have hword : ∀ x ∈ c.word, isQuote x = false := by
      rcases c.is_word with h | h <;> rw [h] <;> simp [isQuote]
    refine List.forall_mem_append.2 ⟨hword, List.forall_mem_append.2 ⟨fun x hx => ?_, ?_⟩⟩
    · exact isQuote_of_isBlank (c.blank_gap x hx)
    · exact List.forall_mem_cons.2 ⟨rfl, fun x hx => isQuote_of_isBlank (c.blank_before x hx)⟩
  isQuote_opening := c.isQuote_opening
  isQuote_body := c.unquoted
  isQuote_closing := c.isQuote_closing
  closes_tail := List.forall_mem_append.2
    ⟨fun x hx => .inl (c.blank_after x hx), fun _ hx => .inr (List.mem_singleton.1 hx)⟩
  tail_ne_nil := List.append_ne_nil_of_right_ne_nil _ (by simp)

/-- Either word begins with a letter, which closes nothing. -/
lemma exists_word_eq (c : QuotedCall) : ∃ x l, c.word = x :: l ∧ isWord x = true ∧ ¬Closes x := by
  rcases c.is_word with h | h
  · exact ⟨_, _, h, by decide, not_or.2 ⟨by decide, by decide⟩⟩
  · exact ⟨_, _, h, by decide, not_or.2 ⟨by decide, by decide⟩⟩

lemma not_closes_head (d : QuotedCall) : ∀ x ∈ d.head.head?, ¬Closes x := by
  obtain ⟨x, l, hword, -, hcloses⟩ := d.exists_word_eq
  intro y hy
  rw [head, hword] at hy
  cases hy
  exact hcloses

/-- Neither word ends like the other one. -/
lemma eq_nil_of_word (h : c.word = u ++ d.word) : u = [] := by
  have himport : ¬"require".toList <:+ "import".toList := by decide
  have hrequire : ¬"import".toList <:+ "require".toList := by decide
  rcases c.is_word with hc | hc <;> rcases d.is_word with hd | hd <;> rw [hc, hd] at h
  · exact List.self_eq_append_left.1 h
  · exact absurd ⟨u, h.symm⟩ himport
  · exact absurd ⟨u, h.symm⟩ hrequire
  · exact List.self_eq_append_left.1 h

lemma exists_word_eq_last (c : QuotedCall) : ∃ l x, c.word = l ++ [x] ∧ isBlank x = false := by
  rcases c.is_word with h | h
  · exact ⟨"impor".toList, 't', h, by decide⟩
  · exact ⟨"requir".toList, 'e', h, by decide⟩

/-- What is before the quotes of a call does not end like that. -/
lemma eq_nil_of_head (h : c.head = u ++ d.head) : u = [] := by
  have hopen : ∀ e : QuotedCall, ∀ x ∈ e.before, (x == '(') = false := by
    intro e x hx
    refine beq_eq_false_iff_ne.2 ?_
    rintro rfl
    exact absurd (e.blank_before _ hx) (by decide)
  have hgap : ∀ e : QuotedCall, ∀ x ∈ e.gap, (!isBlank x) = false := by
    intro e x hx
    rw [e.blank_gap x hx]
    rfl
  have hhead : ∀ e : QuotedCall, e.head = (e.word ++ e.gap) ++ '(' :: e.before :=
    fun e => (List.append_assoc _ _ _).symm
  -- the parenthesis cuts off the word with its gap, and the gap is what is blank of that
  rw [hhead, hhead, ← List.append_assoc] at h
  have hwords := (eq_of_last (p := fun x => x == '(') (hopen c) (hopen d) rfl rfl h).1
  obtain ⟨l, x, hc, hx⟩ := c.exists_word_eq_last
  obtain ⟨l', x', hd, hx'⟩ := d.exists_word_eq_last
  have hcut : l ++ x :: c.gap = (u ++ l') ++ x' :: d.gap := by
    rw [hc, hd] at hwords
    simpa using hwords
  have hsame := (eq_of_last (p := fun x => !isBlank x) (hgap c) (hgap d) (by rw [hx]; rfl)
    (by rw [hx']; rfl) hcut).2
  rw [hsame, ← List.append_assoc] at hwords
  exact eq_nil_of_word (List.append_cancel_right hwords)

/-- The specifier does not begin as a call ends. -/
def Clear (c : QuotedCall) : Prop := ∀ x ∈ c.specifier.head?, ¬Closes x

/-- A call that begins before another one ends before it, too. -/
lemma length_text_le (hclear : d.Clear) (hu : u ≠ []) (h : u ++ (d.text ++ v) = c.text ++ r) :
    c.text.length ≤ u.length := by
  have hheads : c.quotation.head ≠ u ++ d.quotation.head := fun heq => hu (eq_nil_of_head heq)
  exact Quotation.length_text_le (c := c.quotation) (d := d.quotation) d.not_closes_head hclear hheads h

end QuotedCall

lemma callOf_eq : callOf = Pattern.sequence [.wordEdge,
    .either (.exactly "import".toList) (.exactly "require".toList), .many isBlank 0 true, .exactly ['('],
    .many isBlank 0 true, .both (.one isQuote) (.both (.marked (.many isUnquoted 1 true)) (.one isQuote)),
    .many isBlank 0 true, .exactly [')']] := rfl

/-- A call begins a word. -/
lemma QuotedCall.isWordEdge_text (c : QuotedCall) :
    Place.isWordEdge ⟨0, last, c.text ++ rest⟩ = true ↔ last.any isWord = false := by
  obtain ⟨x, l, hword, hx, -⟩ := c.exists_word_eq
  have hfirst : (c.text ++ rest).head? = some x := by
    rw [c.text_eq, hword]
    rfl
  rw [Place.isWordEdge]
  simp only [hfirst, Option.any_some, hx]
  cases last.any isWord <;> decide

lemma takes_callOf : callOf.Takes last t rest mark mark' ↔
    ∃ c : QuotedCall, last.any isWord = false ∧ t = c.text ∧ mark' = some c.specifier := by
  simp only [callOf_eq, Pattern.sequence, takes_wordEdge_both, takes_either_exactly_both,
    takes_both_both, takes_exactly_both, takes_many_both, takes_one_both, takes_marked_both]
  constructor
  · rintro ⟨hedge, word, _, hword, rfl, gap, _, hgap, -, rfl, _, rfl, before, _, hbefore, -, rfl,
      opening, _, hopening, rfl, specifier, _, inner, ⟨⟨hunquoted, hne⟩, -⟩, rfl, closing, _, hclosing,
      rfl, after, _, hafter, -, rfl, rfl, rfl⟩
    let c : QuotedCall := ⟨word, gap, before, opening, specifier, closing, after, hword, hgap, hbefore,
      hopening, List.length_pos_iff.1 hne, fun x hx => isUnquoted_iff.1 (hunquoted x hx), hclosing, hafter⟩
    have htext := c.text_eq.symm
    exact ⟨c, c.isWordEdge_text.1 (htext ▸ hedge), htext, rfl⟩
  · rintro ⟨c, hlast, rfl, rfl⟩
    refine ⟨c.isWordEdge_text.2 hlast, c.word, _, c.is_word, c.text_eq, c.gap, _, c.blank_gap,
      Nat.zero_le _, rfl, _, rfl, c.before, _, c.blank_before, Nat.zero_le _, rfl, c.opening, _,
      c.isQuote_opening, rfl, c.specifier, _, mark, ⟨⟨?_, ?_⟩, rfl⟩, rfl, c.closing, _,
      c.isQuote_closing, rfl, c.after, [')'], c.blank_after, Nat.zero_le _, rfl, rfl, rfl⟩
    · exact fun x hx => isUnquoted_iff.2 (c.unquoted x hx)
    · exact List.length_pos_iff.2 c.specifier_ne_nil

/-! ## The list -/

/-- The list has the package of every call of `import` or `require` that begins a word, whatever else is
around the call, and nothing that is no package of a specifier in the text. -/
structure Refers (content : String) (names : List String) : Prop where
  calls : ∀ (c : QuotedCall) (u v : List Char), content.toList = u ++ c.text ++ v →
    u.getLast?.any isWord = false → c.Clear → ∀ name,
    package? (String.ofList c.specifier) = some name → name ∈ names
  sorted : names.Pairwise fun a b => compare a b = .lt
  occurs : ∀ name ∈ names, ∃ s : String, s.toList <:+: content.toList
    ∧ (∀ x ∈ s.toList, isQuote x = false) ∧ package? s = some name

lemma mem_packages {content : String} : name ∈ packages content ↔
    ∃ p ∈ [importOf, exportOf, callOf], ∃ s ∈ p.findAll content.toList, package? s = some name := by
  rw [packages, Std.TreeSet.mem_toList, Std.TreeSet.mem_ofList]
  simp

/-- At a call, the pattern matches and marks what the call is for. -/
lemma marks_quotedCall (c : QuotedCall) (hlast : last.any isWord = false) (v : List Char) :
    callOf.Marks last (c.text ++ v) (some c.specifier) where
  takes := ⟨c.text, v, rfl, takes_callOf.2 ⟨c, hlast, rfl, rfl⟩⟩
  only t rest mark h htakes := by
    obtain ⟨d, -, rfl, rfl⟩ := takes_callOf.1 htakes
    exact congrArg some (Quotation.body_eq (c := d.quotation) (d := c.quotation) h.symm)

/-- Nothing that matches before a call goes on into it. -/
lemma endsBefore_quotedCall (u : List Char) {c : QuotedCall} (hclear : c.Clear) (v : List Char) :
    callOf.EndsBefore u (c.text ++ v) := by
  intro a b last t rest mark _ hb h htakes
  obtain ⟨d, -, rfl, -⟩ := takes_callOf.1 htakes
  exact QuotedCall.length_text_le hclear hb h

lemma parts_mem_quoted {p q : Pattern} (hp : p ∈ [importOf, exportOf, callOf]) (hq : q ∈ p.parts) :
    q = .many isUnquoted 1 true := by
  have himport : importOf.parts = [.many isUnquoted 1 true] := rfl
  have hexport : exportOf.parts = [.many isUnquoted 1 true] := rfl
  have hcall : callOf.parts = [.many isUnquoted 1 true] := rfl
  simp only [List.mem_cons, List.not_mem_nil, or_false] at hp
  rcases hp with rfl | rfl | rfl <;> simpa only [himport, hexport, hcall, List.mem_singleton] using hq

theorem refers_packages (content : String) : Refers content (packages content) where
  calls c u v h hlast hclear name hname := by
    refine mem_packages.2 ⟨callOf, by simp, _, ?_, hname⟩
    rw [h, List.append_assoc]
    exact (marks_quotedCall c hlast v).mem_findAll (endsBefore_quotedCall u hclear v)
  sorted := Std.TreeSet.ordered_toList
  occurs name hname := by
    obtain ⟨p, hp, s, hs, hpackage⟩ := mem_packages.1 hname
    obtain ⟨hinside, q, hq, last, rest, inner, inner', htakes⟩ := exists_takes_of_mem_findAll hs
    rw [parts_mem_quoted hp hq] at htakes
    exact ⟨s, hinside, fun x hx => isUnquoted_iff.1 (htakes.1.1 x hx), hpackage⟩

/-- The call after one that is not finished. -/
def laterImport : QuotedCall where
  word := "import".toList
  gap := [' ']
  before := [' ']
  opening := '\''
  specifier := ['@', 'b', '/', 'c', '/', 'd']
  closing := '\''
  after := [' ']
  is_word := .inl rfl
  blank_gap := by simp [isBlank]
  blank_before := by simp [isBlank]
  isQuote_opening := by decide
  specifier_ne_nil := by decide
  unquoted := by simp [isQuote]
  isQuote_closing := by decide
  blank_after := by simp [isBlank]

/-- A call that is not finished swallows no call after it. -/
example : "@b/c" ∈ packages "require(\"a; import ( '@b/c/d' )" := by
  have hbare : IsBare "@b/c/d" := ⟨⟨'@', "b/c/d".toList, by decide⟩, by decide, by decide⟩
  have hname : PackageName ('@' :: ['b'] ++ '/' :: ['c']) :=
    .within (by decide) (by decide) (by decide) (by decide)
  refine (refers_packages _).calls laterImport "require(\"a; ".toList [] (by decide) (by decide) ?_ _ ?_
  · intro x hx
    cases hx
    exact not_or.2 ⟨by decide, by decide⟩
  · exact package?_eq_some_iff.2 ⟨hbare, hname, .inr ⟨['d'], by decide⟩⟩

end Rebuild.Imports
