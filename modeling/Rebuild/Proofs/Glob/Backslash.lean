import Rebuild.Proofs.Glob.Literal

/-!
# Backslashes in the text of a directory

No brackets are put around a backslash, so in a pattern it takes the character after it.  The pattern
that is written for a directory with a backslash in its text does not match anything in that directory.

* **Tokens.**  A token that refuses a backslash stands in the way of a text that has one there.
* **Reading.**  Whatever is read after such a token, it stays where it is, or the two stars that take
  its place refuse a backslash too: `Kept`, with one lemma for each way to go on.
* **Runs.**  Of several backslashes in a row the pattern has about half, and then something else:
  `exists_refuses`.
-/

namespace Rebuild.Glob

/-! ## Tokens -/

/-- The token matches no bytes that begin with a backslash. -/
def Token.Refuses (t : Token) : Prop := ∀ accept rest, t.run accept (92 :: rest) = false

lemma bytesOf_backslash : bytesOf '\\' = [92] := by
  rw [bytesOf_eq]
  rfl

lemma refuses_literal {c : Char} (hc : c ≠ '\\') : (Token.literal c).Refuses := by
  intro accept rest
  rw [Token.run]
  cases hdrop : dropWord (bytesOf c) (92 :: rest) with
  | none => rfl
  | some after =>
      -- The character would begin with the byte of the backslash.
      have hbytes := dropWord_eq_some_iff.1 hdrop
      have hbegins : ['\\'].flatMap bytesOf <+: [c].flatMap bytesOf := by
        rw [List.flatMap_singleton, List.flatMap_singleton, bytesOf_backslash]
        cases hword : bytesOf c with
        | nil =>
            rw [bytesOf_eq] at hword
            exact absurd hword String.utf8EncodeChar_ne_nil
        | cons b word =>
            rw [hword, List.cons_append] at hbytes
            rw [← (List.cons.inj hbytes).1]
            exact ⟨word, rfl⟩
      have hsame := isPrefix_of_bytes hbegins
      simp only [List.cons_prefix_cons, List.nil_prefix, and_true] at hsame
      exact absurd hsame.symm hc

lemma refuses_exactly {c : Char} (hc : c ≠ '\\') : (exactly c).Refuses := by
  intro accept rest
  have hliteral := refuses_literal hc accept rest
  rw [Token.run] at hliteral
  rw [run_exactly, hliteral]

lemma refuses_inside : Token.inside.Refuses := fun _ _ => rfl

lemma refuses_between : Token.between.Refuses := fun _ _ => rfl

/-! ## Reading -/

namespace Frames

variable {f f' : Frames} {before : List Token} {t : Token}

/-- The branch outside all groups, in reverse. -/
def outermost (f : Frames) : List Token := (f.below.getLastD f.top).branch

/-- Outside all groups these tokens were read, then one that refuses a backslash. -/
def Kept (before : List Token) (f : Frames) : Prop :=
  ∃ t after, t.Refuses ∧ f.outermost.reverse = before ++ t :: after

lemma outermost_push (f : Frames) (t : Token) :
    (f.push t).outermost = if f.below = [] then t :: f.outermost else f.outermost := by
  obtain ⟨top, _ | ⟨outer, below⟩⟩ := f <;> rfl

lemma Kept.push (h : Kept before f) (t : Token) : Kept before (f.push t) := by
  obtain ⟨u, after, hu, hf⟩ := h
  rw [Kept, outermost_push]
  split_ifs
  · exact ⟨u, after ++ [t], hu, by simp [hf]⟩
  · exact ⟨u, after, hu, hf⟩

lemma Kept.twoStars (h : Kept before f) : Kept before (pushTwoStars f) := (h.push _).push _

/-- The last token can be replaced by one that refuses too. -/
lemma Kept.replace (h : Kept before f) (ht : t.Refuses) : Kept before (f.drop.push t) := by
  obtain ⟨u, after, hu, hf⟩ := h
  rw [Kept, outermost_push]
  obtain ⟨top, _ | ⟨outer, below⟩⟩ := f
  · have hbranch : top.branch = after.reverse ++ u :: before.reverse := by
      rw [← List.reverse_inj]
      simpa [outermost] using hf
    rcases List.eq_nil_or_concat after with rfl | ⟨after, v, rfl⟩
    · exact ⟨t, [], ht, by simp [drop, outermost, hbranch]⟩
    · exact ⟨u, after ++ [t], hu, by simp [drop, outermost, hbranch]⟩
  · exact ⟨u, after, hu, hf⟩

lemma Kept.opened (h : Kept before f) : Kept before ⟨{}, f.top :: f.below⟩ := by
  obtain ⟨top, _ | ⟨outer, below⟩⟩ := f <;> exact h

lemma Kept.closed (h : Kept before f) (hclose : f.close? = some f') : Kept before f' := by
  obtain ⟨top, _ | ⟨outer, below⟩⟩ := f
  · cases hclose
  · cases hclose
    refine Kept.push ?_ _
    cases below <;> exact h

lemma Kept.nextBranch (h : Kept before f) (hbelow : f.below ≠ []) : Kept before f.nextBranch := by
  obtain ⟨top, _ | ⟨outer, below⟩⟩ := f
  · exact absurd rfl hbelow
  · exact h

lemma Kept.readTwoStars (h : Kept before f) (last next : Option Char) :
    Kept before (readTwoStars f last next).1 := by
  have hrefuses : ∀ slash : Bool, Token.Refuses (if slash then .between else .inside)
    | true => refuses_between
    | false => refuses_inside
  rw [Glob.readTwoStars]
  simp only
  split
  · split
    · exact h.push _
    · exact h.twoStars
  split
  · exact h.twoStars
  split
  · split
    · exact h
    · exact h
    · exact h.replace (hrefuses _)
  · exact h.twoStars

end Frames

/-- What was read stays, up to the token that refuses a backslash or another one in its place. -/
lemma exists_of_kept {f : Frames} {last : Option Char} {cs : List Char} {before g : List Token}
    (h : f.Kept before) (hread : readFrom f last cs = .ok g) :
    ∃ t more, t.Refuses ∧ g = before ++ t :: more := by
  fun_induction readFrom f last cs with
  | case1 f last hbelow =>
      obtain ⟨t, after, ht, hf⟩ := h
      cases hread
      refine ⟨t, after, ht, ?_⟩
      rw [← hf, Frames.outermost, List.isEmpty_iff.1 hbelow]
      rfl
  | case3 f last rest f' hstars ih =>
      have hkept := h.readTwoStars last rest.head?
      rw [hstars] at hkept
      exact ih hkept hread
  | case4 f last rest f' hstars ih =>
      have hkept := h.readTwoStars last rest.head?
      rw [hstars] at hkept
      exact ih hkept hread
  | case5 f last c rest ih => exact ih (h.push _) hread
  | case6 f last rest _ _ ih => exact ih (h.push _) hread
  | case7 f last rest _ _ _ ih => exact ih (h.push _) hread
  | case10 f last rest token after _ _ _ _ _ _ _ ih => exact ih (h.push _) hread
  | case11 f last rest _ _ _ _ _ _ ih => exact ih h.opened hread
  | case13 f last rest f' hclose _ _ _ _ _ _ _ ih => exact ih (h.closed hclose) hread
  | case14 f last c rest _ _ _ _ _ _ _ _ hgroup ih =>
      exact ih (h.nextBranch (by simpa using hgroup.2)) hread
  | case15 f last c rest _ _ _ _ _ _ _ _ _ ih => exact ih (h.push _) hread
  | case2 | case8 | case9 | case12 => cases hread

/-! ## Runs of backslashes -/

lemma readFrom_backslash (f : Frames) (last : Option Char) (c : Char) (rest : List Char) :
    readFrom f last ('\\' :: c :: rest) = readFrom (f.push (.literal c)) (some c) rest := by
  rw [readFrom]

/-- What is pushed last refuses a backslash. -/
lemma Frames.kept_push {f : Frames} {t : Token} (hbelow : f.below = []) (ht : t.Refuses) :
    (f.push t).Kept f.top.branch.reverse := by
  refine ⟨t, [], ht, ?_⟩
  rw [outermost_push, if_pos hbelow, outermost, hbelow]
  simp

lemma quoteInside_cons (c : Char) (text : List Char) :
    quoteInside (c :: text) = quote c ++ quoteInside text := by
  simp [quoteInside]

lemma quoteInside_backslash (text : List Char) :
    quoteInside ('\\' :: text) = '\\' :: quoteInside text := rfl

section

variable {f : Frames} {last : Option Char} {text : List Char} {g : Pattern}

/-- Where the text has no backslash next, the pattern refuses one. -/
lemma exists_refuses_of_other (hbelow : f.below = []) (h : text.head? ≠ some '\\')
    (hread : readFrom f last (quoteInside text) = .ok g) :
    ∃ t more, t.Refuses ∧ g = f.top.branch.reverse ++ t :: more := by
  cases text with
  | nil =>
      rw [show quoteInside [] = ['/', '*', '*'] from rfl, readFrom_inside hbelow] at hread
      cases hread
      exact ⟨.inside, [], refuses_inside, rfl⟩
  | cons c text =>
      have hc : c ≠ '\\' := by simpa using h
      obtain ⟨last', heq⟩ := exists_readFrom_quote hbelow hc last (quoteInside text)
      rw [quoteInside_cons, heq] at hread
      exact exists_of_kept (Frames.kept_push hbelow (refuses_exactly hc)) hread

/-- So does a backslash that takes what comes next. -/
lemma exists_refuses_of_single (hbelow : f.below = []) (h : text.head? ≠ some '\\')
    (hread : readFrom f last (quoteInside ('\\' :: text)) = .ok g) :
    ∃ t more, t.Refuses ∧ g = f.top.branch.reverse ++ t :: more := by
  have hquote : ∃ c rest, c ≠ '\\' ∧ quoteInside text = c :: rest := by
    cases text with
    | nil => exact ⟨'/', _, by decide, rfl⟩
    | cons d text =>
        rw [quoteInside_cons, quote]
        split_ifs with hd
        · exact ⟨'[', _, by decide, rfl⟩
        · exact ⟨d, _, by simpa using h, rfl⟩
  obtain ⟨c, rest, hc, hquote⟩ := hquote
  rw [quoteInside_backslash, hquote, readFrom_backslash] at hread
  exact exists_of_kept (Frames.kept_push hbelow (refuses_literal hc)) hread

end

lemma replicate_isPrefix {n : Nat} {text : List Char} (h : List.replicate n '\\' <+: text) :
    List.replicate (n + 2) '\\' <+: '\\' :: '\\' :: text := by
  simpa [List.replicate_succ] using h

/-- Of the backslashes that come next, the pattern has no more than the text. -/
lemma exists_replicate {f : Frames} {last : Option Char} {text : List Char} {g : Pattern}
    (hbelow : f.below = []) (hread : readFrom f last (quoteInside text) = .ok g) :
    ∃ n t more, t.Refuses ∧ List.replicate n '\\' <+: text ∧
      g = f.top.branch.reverse ++ ((List.replicate n '\\').map exactly ++ t :: more) := by
  by_cases hhead : text.head? = some '\\'
  · obtain ⟨rest, rfl⟩ := List.head?_eq_some_iff.1 hhead
    by_cases hnext : rest.head? = some '\\'
    · obtain ⟨rest, rfl⟩ := List.head?_eq_some_iff.1 hnext
      rw [quoteInside_backslash, quoteInside_backslash, readFrom_backslash] at hread
      have hpush : (f.push (.literal '\\')).below = [] := hbelow
      obtain ⟨n, t, more, ht, hbegins, rfl⟩ := exists_replicate hpush hread
      refine ⟨n + 1, t, more, ht, ?_, ?_⟩
      · have hfewer : List.replicate (n + 1) '\\' <+: List.replicate (n + 2) '\\' := by
          rw [List.replicate_succ' (n := n + 1)]
          exact List.prefix_append _ _
        exact hfewer.trans (replicate_isPrefix hbegins)
      · simp [Frames.push, List.replicate_succ, exactly, special]
    · obtain ⟨t, more, ht, rfl⟩ := exists_refuses_of_single hbelow hnext hread
      exact ⟨0, t, more, ht, List.nil_prefix, rfl⟩
  · obtain ⟨t, more, ht, rfl⟩ := exists_refuses_of_other hbelow hhead hread
    exact ⟨0, t, more, ht, List.nil_prefix, rfl⟩
termination_by text.length

/-- The pattern of a text with a backslash refuses one after some of the characters, where the text
has one. -/
lemma exists_refuses {f : Frames} {last : Option Char} {text : List Char} {g : Pattern}
    (hbelow : f.below = []) (hmem : '\\' ∈ text)
    (hread : readFrom f last (quoteInside text) = .ok g) :
    ∃ before t more, t.Refuses ∧ before ++ ['\\'] <+: text ∧
      g = f.top.branch.reverse ++ (before.map exactly ++ t :: more) := by
  induction text generalizing f last with
  | nil => cases hmem
  | cons c text ih =>
      by_cases hc : c = '\\'
      · subst hc
        by_cases hnext : text.head? = some '\\'
        · obtain ⟨rest, rfl⟩ := List.head?_eq_some_iff.1 hnext
          rw [quoteInside_backslash, quoteInside_backslash, readFrom_backslash] at hread
          have hpush : (f.push (.literal '\\')).below = [] := hbelow
          obtain ⟨n, t, more, ht, hbegins, rfl⟩ := exists_replicate hpush hread
          refine ⟨List.replicate (n + 1) '\\', t, more, ht, ?_, ?_⟩
          · rw [← List.replicate_succ']
            exact replicate_isPrefix hbegins
          · simp [Frames.push, List.replicate_succ, exactly, special]
        · obtain ⟨t, more, ht, rfl⟩ := exists_refuses_of_single hbelow hnext hread
          exact ⟨[], t, more, ht, ⟨text, rfl⟩, rfl⟩
      · obtain ⟨last', heq⟩ := exists_readFrom_quote hbelow hc last (quoteInside text)
        rw [quoteInside_cons, heq] at hread
        have hpush : (f.push (exactly c)).below = [] := hbelow
        obtain ⟨before, t, more, ht, hbegins, rfl⟩ :=
          ih hpush ((List.mem_cons.1 hmem).resolve_left (Ne.symm hc)) hread
        refine ⟨c :: before, t, more, ht, ?_, by simp [Frames.push]⟩
        rw [List.cons_append, List.cons_prefix_cons]
        exact ⟨rfl, hbegins⟩

/-- The pattern of a text with a backslash matches nothing that begins with the text. -/
lemma not_matches_of_backslash {text : List Char} {g : Pattern} {s : String} (hmem : '\\' ∈ text)
    (hparse : parse (String.ofList (quoteInside text)) = .ok g) (hbegins : text <+: s.toList) :
    g.matches s.toUTF8.toList = false := by
  rw [parse, String.toList_ofList] at hparse
  obtain ⟨before, t, more, ht, hbefore, rfl⟩ := exists_refuses rfl hmem hparse
  obtain ⟨after, hafter⟩ := hbefore.trans hbegins
  have hrun : run (before.map exactly ++ t :: more) List.isEmpty s.toUTF8.toList = false := by
    have hdrop : dropWord (before.flatMap bytesOf) s.toUTF8.toList
        = some (92 :: after.flatMap bytesOf) := by
      rw [dropWord_eq_some_iff, toList_toUTF8, ← hafter, List.flatMap_append, List.flatMap_append]
      simp [bytesOf_backslash]
    rw [run_map_exactly, hdrop, Option.any_some, run]
    exact ht _ _
  rw [Pattern.matches]
  · exact hrun
  · -- `**` alone would be a token that refuses nothing.
    intro heq
    cases before with
    | nil =>
        obtain ⟨rfl, rfl⟩ := List.cons.inj heq
        cases ht (fun _ => true) []
    | cons c before =>
        have hc : exactly c = .anyPrefix := (List.cons.inj heq).1
        rw [exactly] at hc
        split_ifs at hc

end Rebuild.Glob
