import Rebuild.Glob.Reader
import Rebuild.Proofs.Text.Utf8

/-!
# Patterns for everything in one directory

A text is quoted for a pattern by putting each character that means something in brackets.  The
backslash is not among these, so a text without one comes back as it was.

* **Reading.**  `parse_quoteInside`: each character of the text becomes a token of its own.
* **Bytes.**  `isPrefix_of_bytes`: a text begins with another one as soon as its bytes do.
* **Matching.**  `matches_insideOf_iff`: the pattern matches what begins with the text and a slash.
-/

namespace Rebuild.Glob

/-! ## Reading -/

/-- The characters that are put in brackets. -/
def special : List Char := ['?', '*', '[', ']', '\x7b', '\x7d']

/-- A character as a pattern writes it. -/
def quote (c : Char) : List Char := if c ∈ special then ['[', c, ']'] else [c]

/-- What is read from a quoted character. -/
def exactly (c : Char) : Token := if c ∈ special then .class false [(c, c)] else .literal c

/-- The text of the pattern for everything in the directory with this text. -/
def quoteInside (text : List Char) : List Char := text.flatMap quote ++ ['/', '*', '*']

/-- The pattern for everything in the directory with this text. -/
def insideOf (text : List Char) : Pattern := text.map exactly ++ [.inside]

section

variable {f : Frames} {last : Option Char} {c : Char} {text rest : List Char}

lemma readWholeClass_special (hc : c ∈ special) (rest : List Char) :
    readWholeClass (c :: ']' :: rest) = .ok (.class false [(c, c)], rest) := by
  simp only [special, List.mem_cons, List.not_mem_nil, or_false] at hc
  rcases hc with rfl | rfl | rfl | rfl | rfl | rfl <;> rfl

lemma readFrom_special (hc : c ∈ special) :
    readFrom f last ('[' :: c :: ']' :: rest)
      = readFrom (f.push (.class false [(c, c)])) (some ']') rest := by
  have hclass := readWholeClass_special hc rest
  rw [readFrom]
  · simp only [Char.reduceEq, if_false, if_true]
    split
    · rename_i fault h
      cases hclass.symm.trans h
    · rename_i token after h
      cases hclass.symm.trans h
      rfl
  · intro _ h
    cases h
  · intro _ _ h
    cases h

lemma readFrom_plain (hbelow : f.below = []) (hc : c ∉ special) (hslash : c ≠ '\\') :
    readFrom f last (c :: rest) = readFrom (f.push (.literal c)) (some c) rest := by
  simp only [special, List.mem_cons, List.not_mem_nil, or_false, not_or] at hc
  rw [readFrom]
  · simp [hc, hslash, hbelow]
  · rintro _ ⟨⟩
    exact absurd rfl hc.2.1
  · rintro _ _ ⟨⟩
    exact absurd rfl hslash

/-- A quoted character is read as itself. -/
lemma exists_readFrom_quote (hbelow : f.below = []) (hslash : c ≠ '\\') (last : Option Char)
    (rest : List Char) :
    ∃ last', readFrom f last (quote c ++ rest) = readFrom (f.push (exactly c)) last' rest := by
  rw [quote, exactly]
  split_ifs with hc
  · exact ⟨_, readFrom_special hc⟩
  · exact ⟨_, readFrom_plain hbelow hc hslash⟩

/-- The two stars after a slash take its place. -/
lemma readFrom_inside (hbelow : f.below = []) :
    readFrom f last ['/', '*', '*'] = .ok (f.top.branch.reverse ++ [.inside]) := by
  rw [readFrom_plain hbelow (by decide) (by decide)]
  unfold readFrom
  simp only [readTwoStars, Frames.push, Frames.drop]
  simp
  unfold readFrom
  simp [hbelow]

lemma readFrom_quoteInside (hbelow : f.below = []) (hslash : '\\' ∉ text) :
    readFrom f last (quoteInside text) = .ok (f.top.branch.reverse ++ insideOf text) := by
  induction text generalizing f last with
  | nil => exact readFrom_inside hbelow
  | cons c text ih =>
      simp only [List.mem_cons, not_or] at hslash
      obtain ⟨last', hread⟩ :=
        exists_readFrom_quote hbelow (Ne.symm hslash.1) last (quoteInside text)
      have hcons : quoteInside (c :: text) = quote c ++ quoteInside text := by
        simp [quoteInside]
      rw [hcons, hread, ih (f := f.push (exactly c)) hbelow hslash.2]
      simp [Frames.push, insideOf]

/-- Without a backslash, each character is read as itself. -/
lemma parse_quoteInside {s : String} (hs : s.toList = quoteInside text) (hslash : '\\' ∉ text) :
    parse s = .ok (insideOf text) := by
  rw [parse, hs]
  exact readFrom_quoteInside rfl hslash

/-- Two stars in front stand for any directories around the directory. -/
lemma parse_anywhere {s : String} (hs : s.toList = '*' :: '*' :: '/' :: quoteInside text)
    (hslash : '\\' ∉ text) : parse s = .ok (.anyPrefix :: insideOf text) := by
  rw [parse, hs, readFrom]
  exact readFrom_quoteInside rfl hslash

end

/-! ## Bytes -/

lemma bytesOf_eq : bytesOf = String.utf8EncodeChar := by
  funext c
  rw [bytesOf, String.toUTF8, String.toByteArray_singleton, Text.Utf8.toList_utf8Encode]
  simp

/-- The bytes of a text are those of its characters. -/
lemma toList_toUTF8 (s : String) : s.toUTF8.toList = s.toList.flatMap bytesOf := by
  rw [String.toUTF8, ← String.utf8Encode_toList, Text.Utf8.toList_utf8Encode,
    bytesOf_eq]

/-- A text begins with another one as soon as its bytes do. -/
lemma isPrefix_of_bytes {before text : List Char}
    (h : before.flatMap bytesOf <+: text.flatMap bytesOf) : before <+: text := by
  obtain ⟨more, h⟩ := h
  refine List.isPrefix_of_utf8Encode_append_eq_utf8Encode more.toByteArray ?_
  rw [List.utf8Encode, List.utf8Encode, ← bytesOf_eq, ← h, List.toByteArray_append]

/-! ## Matching -/

section

variable {accept : List UInt8 → Bool} {bytes word rest : List UInt8} {text : List Char}

lemma dropWord_eq_some_iff : dropWord word bytes = some rest ↔ bytes = word ++ rest := by
  induction word generalizing bytes with
  | nil => simp [dropWord]
  | cons w word ih =>
      cases bytes with
      | nil => simp [dropWord]
      | cons b bytes =>
          rw [dropWord, List.cons_append, List.cons.injEq]
          split_ifs with hw
          · simp [ih, hw]
          · simp [Ne.symm hw]

lemma dropWord_append (word more : List UInt8) (bytes : List UInt8) :
    dropWord (word ++ more) bytes = (dropWord word bytes).bind (dropWord more) := by
  induction word generalizing bytes with
  | nil => rfl
  | cons w word ih =>
      cases bytes with
      | nil => rfl
      | cons b bytes =>
          rw [List.cons_append, dropWord, dropWord]
          split_ifs
          · exact ih bytes
          · rfl

/-- What is read from a quoted character matches its bytes. -/
lemma run_exactly (c : Char) (accept : List UInt8 → Bool) (bytes : List UInt8) :
    (exactly c).run accept bytes = (dropWord (bytesOf c) bytes).any accept := by
  rw [exactly]
  split_ifs with hc
  · have hone : ∃ b, bytesOf c = [b] := by
      simp only [special, List.mem_cons, List.not_mem_nil, or_false] at hc
      rcases hc with rfl | rfl | rfl | rfl | rfl | rfl <;> exact ⟨_, by rw [bytesOf_eq]; rfl⟩
    obtain ⟨b, hb⟩ := hone
    cases bytes with
    | nil => simp [Token.run, hb, dropWord]
    | cons d bytes =>
        by_cases hd : b = d
        · simp [Token.run, inRanges, hb, dropWord, hd]
        · simp [Token.run, inRanges, hb, dropWord, hd, Ne.symm hd]
  · rw [Token.run]

lemma run_map_exactly (text : List Char) (more : Pattern) (bytes : List UInt8) :
    run (text.map exactly ++ more) accept bytes
      = (dropWord (text.flatMap bytesOf) bytes).any (run more accept) := by
  induction text generalizing bytes with
  | nil => rfl
  | cons c text ih =>
      rw [List.map_cons, List.cons_append, run, run_exactly, List.flatMap_cons, dropWord_append]
      cases dropWord (bytesOf c) bytes with
      | none => rfl
      | some rest => exact ih rest

lemma someSuffix_isEmpty (bytes : List UInt8) : someSuffix List.isEmpty bytes = true := by
  induction bytes with
  | nil => rfl
  | cons b bytes ih => rw [someSuffix, ih, Bool.or_true]

lemma run_inside_iff : run [.inside] List.isEmpty bytes = true ↔ ∃ rest, bytes = 47 :: rest := by
  cases bytes with
  | nil => simp [run, Token.run, afterSlash]
  | cons b bytes => simp [run, Token.run, afterSlash, someSuffix_isEmpty]

/-- The pattern matches what begins with the text and a slash, and nothing else. -/
lemma matches_insideOf_iff (text : List Char) (s : String) :
    (insideOf text).matches s.toUTF8.toList = true ↔ ∃ rest, s.toList = text ++ '/' :: rest := by
  have hmatches : ∀ bytes, (insideOf text).matches bytes = run (insideOf text) List.isEmpty bytes := by
    intro bytes
    rw [Pattern.matches]
    intro h
    cases text with
    | nil => cases h
    | cons c text => simp [insideOf] at h
  have hslash : bytesOf '/' = [47] := by
    rw [bytesOf_eq]
    rfl
  rw [hmatches, insideOf, run_map_exactly, Option.any_eq_true, toList_toUTF8]
  constructor
  · rintro ⟨rest, hrest, hrun⟩
    obtain ⟨more, rfl⟩ := run_inside_iff.1 hrun
    have hbegins : (text ++ ['/']) <+: s.toList := by
      refine isPrefix_of_bytes ⟨more, ?_⟩
      rw [dropWord_eq_some_iff.1 hrest, List.flatMap_append]
      simp [hslash]
    obtain ⟨after, hafter⟩ := hbegins
    exact ⟨after, by rw [← hafter, List.append_assoc, List.singleton_append]⟩
  · rintro ⟨after, hafter⟩
    refine ⟨47 :: after.flatMap bytesOf, dropWord_eq_some_iff.2 ?_, run_inside_iff.2 ⟨_, rfl⟩⟩
    rw [hafter, List.flatMap_append, List.flatMap_cons, hslash, List.singleton_append]

end

end Rebuild.Glob
