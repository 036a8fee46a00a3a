import Rebuild.Proofs.Json.Spelling

/-!
# Numbers in their places

Where a number stands in a text, its end must be found, and no more be taken.

* **Reading.**  A reader of numbers looks no further than to the first character that is part of none,
  and leaves an end of what it is given (`Local`): `local_readNumber`, from its parts.
* **Writing.**  A number is written with characters of numbers only, fractions included, or as `null`
  if it is none (`numberText_cases`).
-/

namespace Rebuild.Json

/-! ## Reading -/

/-- What comes first is no part of a number. -/
def Parted (rest : List Char) : Prop :=
  ∀ c ∈ rest.head?, c.isDigit = false ∧ c ≠ '.' ∧ c ≠ 'e' ∧ c ≠ 'E' ∧ c ≠ '+' ∧ c ≠ '-'

/-- The reader does not look at what is no part of a number, and leaves an end of what it is given. -/
structure Local {α : Type} (read : List Char → Option (α × List Char)) : Prop where
  append : ∀ cs rest, Parted rest → read (cs ++ rest) = (read cs).map fun r => (r.1, r.2 ++ rest)
  suffix : ∀ cs r, read cs = some r → r.2 <:+ cs

lemma takeDigits_append (cs : List Char) {rest : List Char} (h : Parted rest) :
    takeDigits (cs ++ rest) = ((takeDigits cs).1, (takeDigits cs).2 ++ rest) := by
  induction cs with
  | nil =>
      cases rest with
      | nil => rfl
      | cons c rest =>
          have hc : c.isDigit = false := (h c rfl).1
          simp [takeDigits, hc]
  | cons c cs ih =>
      simp only [takeDigits, Prod.mk.injEq] at ih
      cases hc : c.isDigit <;> simp [takeDigits, hc, ih]

lemma takeDigits_suffix (cs : List Char) : (takeDigits cs).2 <:+ cs := List.dropWhile_suffix _

lemma local_readWhole : Local readWhole where
  append cs rest h := by
    rw [readWhole, readWhole, takeDigits_append cs h]
    rcases takeDigits cs with ⟨_ | ⟨_ | d, _ | ⟨d', ds⟩⟩, after⟩ <;> rfl
  suffix cs r h := by
    have hsuffix := takeDigits_suffix cs
    rw [readWhole] at h
    split at h
    · cases h
    · cases h
    · rename_i ds rest _ _ htake
      cases h
      rwa [htake] at hsuffix

lemma local_readFraction : Local readFraction where
  append cs rest h := by
    cases cs with
    | nil =>
        cases rest with
        | nil => rfl
        | cons c rest =>
            have hc : c ≠ '.' := (h c rfl).2.1
            simp [readFraction, hc]
    | cons c cs =>
        by_cases hc : c = '.'
        · subst hc
          simp only [List.cons_append, readFraction, takeDigits_append cs h]
          rcases takeDigits cs with ⟨_ | ⟨d, ds⟩, after⟩ <;> rfl
        · simp [readFraction, hc]
  suffix cs r h := by
    rw [readFraction.eq_def] at h
    split at h
    · rename_i cs
      have hsuffix := takeDigits_suffix cs
      split at h
      · cases h
      · rename_i ds rest _ htake
        cases h
        rw [htake] at hsuffix
        exact hsuffix.trans (List.suffix_cons _ _)
    · cases h
      exact List.suffix_refl _

/-- Whether an exponent is negative, and what follows its sign. -/
def exponentSign (cs : List Char) : Bool × List Char :=
  match cs with
  | '+' :: rest => (false, rest)
  | '-' :: rest => (true, rest)
  | _ => (false, cs)

/-- The digits of an exponent after its sign. -/
def readPower (negative : Bool) (cs : List Char) : Option (Int × List Char) :=
  match takeDigits cs with
  | ([], _) => none
  | (ds, rest) => some (if negative then -(digitsValue ds : Int) else digitsValue ds, rest)

lemma readExponent_cons {c : Char} (hc : c = 'e' ∨ c = 'E') (cs : List Char) :
    readExponent (c :: cs) = readPower (exponentSign cs).1 (exponentSign cs).2 := by
  simp only [readExponent, if_pos hc]
  rfl

lemma exponentSign_append (cs : List Char) {rest : List Char} (h : Parted rest) :
    exponentSign (cs ++ rest) = ((exponentSign cs).1, (exponentSign cs).2 ++ rest) := by
  cases cs with
  | nil =>
      cases rest with
      | nil => rfl
      | cons c rest =>
          obtain ⟨-, -, -, -, hplus, hminus⟩ := h c rfl
          simp [exponentSign, hplus, hminus]
  | cons c cs =>
      rw [List.cons_append, exponentSign.eq_def, exponentSign.eq_def]
      split <;> simp_all

lemma exponentSign_suffix (cs : List Char) : (exponentSign cs).2 <:+ cs := by
  rw [exponentSign.eq_def]
  split
  · exact List.suffix_cons _ _
  · exact List.suffix_cons _ _
  · exact List.suffix_refl _

lemma local_readPower (negative : Bool) : Local (readPower negative) where
  append cs rest h := by
    rw [readPower, readPower, takeDigits_append cs h]
    rcases takeDigits cs with ⟨_ | ⟨d, ds⟩, after⟩ <;> rfl
  suffix cs r h := by
    have hsuffix := takeDigits_suffix cs
    rw [readPower] at h
    split at h
    · cases h
    · rename_i ds rest _ htake
      cases h
      rwa [htake] at hsuffix

lemma local_readExponent : Local readExponent where
  append cs rest h := by
    cases cs with
    | nil =>
        cases rest with
        | nil => rfl
        | cons c rest =>
            obtain ⟨-, -, he, hE, -, -⟩ := h c rfl
            simp [readExponent, he, hE]
    | cons c cs =>
        by_cases hc : c = 'e' ∨ c = 'E'
        · rw [List.cons_append, readExponent_cons hc, readExponent_cons hc, exponentSign_append cs h]
          exact (local_readPower _).append _ rest h
        · simp [readExponent, hc]
  suffix cs r h := by
    cases cs with
    | nil =>
        cases h
        exact List.suffix_refl _
    | cons c cs =>
        by_cases hc : c = 'e' ∨ c = 'E'
        · rw [readExponent_cons hc] at h
          exact ((local_readPower _).suffix _ r h).trans
            ((exponentSign_suffix cs).trans (List.suffix_cons _ _))
        · simp only [readExponent, if_neg hc, Option.some.injEq] at h
          cases h
          exact List.suffix_refl _

lemma local_readMagnitude (negative : Bool) : Local (readMagnitude negative) where
  append cs rest h := by
    simp only [readMagnitude, bind, local_readWhole.append cs rest h]
    cases hwhole : readWhole cs with
    | none => rfl
    | some whole =>
        simp only [Option.map_some, Option.bind_some, local_readFraction.append _ rest h]
        cases hfraction : readFraction whole.2 with
        | none => rfl
        | some fraction =>
            simp only [Option.map_some, Option.bind_some, local_readExponent.append _ rest h]
            cases hexponent : readExponent fraction.2 with
            | none => rfl
            | some exponent =>
                have hlength : ((fraction.2 ++ rest).length == (exponent.2 ++ rest).length)
                    = (fraction.2.length == exponent.2.length) := by
                  simp
                simp only [Option.map_some, Option.bind_some, hlength]
                split
                · rfl
                · split
                  · rfl
                  · rw [Option.map_bind]
                    rfl
  suffix cs r h := by
    simp only [readMagnitude, Option.bind_eq_bind, Option.bind_eq_some_iff] at h
    obtain ⟨whole, hwhole, fraction, hfraction, exponent, hexponent, h⟩ := h
    have hsuffix : exponent.2 <:+ cs := (local_readExponent.suffix _ _ hexponent).trans
      ((local_readFraction.suffix _ _ hfraction).trans (local_readWhole.suffix _ _ hwhole))
    split at h
    · cases h
      exact hsuffix
    · split at h
      · cases h
        exact hsuffix
      · obtain ⟨f, -, h⟩ := Option.bind_eq_some_iff.1 h
        cases h
        exact hsuffix

lemma local_readNumber : Local readNumber where
  append cs rest h := by
    cases cs with
    | nil =>
        have hrest : readNumber rest = readMagnitude false rest := by
          cases rest with
          | nil => rfl
          | cons c rest =>
              obtain ⟨-, -, -, -, -, hminus⟩ := h c rfl
              simp [readNumber, hminus]
        rw [List.nil_append, hrest]
        exact (local_readMagnitude false).append [] rest h
    | cons c cs =>
        by_cases hc : c = '-'
        · subst hc
          exact (local_readMagnitude true).append cs rest h
        · have hplain : ∀ more, readNumber (c :: more) = readMagnitude false (c :: more) := by
            simp [readNumber, hc]
          rw [List.cons_append, hplain, hplain]
          exact (local_readMagnitude false).append (c :: cs) rest h
  suffix cs r h := by
    rw [readNumber.eq_def] at h
    split at h
    · exact ((local_readMagnitude true).suffix _ r h).trans (List.suffix_cons _ _)
    · exact (local_readMagnitude false).suffix _ r h

/-! ## Writing -/

/-- A character that numbers are written with. -/
def IsNumeric (c : Char) : Prop := c.isDigit = true ∨ c = '-' ∨ c = '.' ∨ c = 'e'

/-- The text is written with characters of numbers. -/
def Numeric (s : String) : Prop := ∀ c ∈ s.toList, IsNumeric c

lemma Numeric.append {s t : String} (hs : Numeric s) (ht : Numeric t) : Numeric (s ++ t) := by
  intro c hc
  rw [String.toList_append] at hc
  exact (List.mem_append.1 hc).elim (hs c) (ht c)

lemma numeric_ofList {s : String} (hs : Numeric s) {cs : List Char} (h : cs ⊆ s.toList) :
    Numeric (String.ofList cs) := by
  intro c hc
  rw [String.toList_ofList] at hc
  exact hs c (h hc)

lemma numeric_natRepr (n : Nat) : Numeric n.repr := by
  intro c hc
  rw [Nat.toList_repr] at hc
  exact Or.inl (isDigit_toDigits hc)

lemma numeric_sign : Numeric "-" := by simp [Numeric, IsNumeric]

lemma numeric_point : Numeric "." := by simp [Numeric, IsNumeric]

lemma numeric_exponent : Numeric "e" := by simp [Numeric, IsNumeric]

lemma numeric_empty : Numeric "" := by simp [Numeric]

lemma numeric_zeros (n : Nat) : Numeric (Text.Decimal.zeros n) := by
  intro c hc
  rw [Text.Decimal.zeros, String.toList_ofList] at hc
  rw [List.eq_of_mem_replicate hc]
  exact Or.inl (by decide)

lemma numeric_intRepr (i : Int) : Numeric i.repr := by
  rw [Int.repr_eq_if]
  split_ifs
  · exact numeric_natRepr _
  · exact numeric_sign.append (numeric_natRepr _)

lemma numeric_layout {digits : String} (h : Numeric digits) (power : Int) :
    Numeric (Text.Decimal.layout digits power) := by
  have hzero : Numeric "0" := by simp [Numeric, IsNumeric]
  have htake : ∀ n, Numeric (String.ofList (digits.toList.take n)) := fun n =>
    numeric_ofList h (List.take_subset _ _)
  have hdrop : ∀ n, Numeric (String.ofList (digits.toList.drop n)) := fun n =>
    numeric_ofList h (List.drop_subset _ _)
  simp only [Text.Decimal.layout]
  split
  · exact (h.append (numeric_zeros _)).append (numeric_point.append hzero)
  split
  · exact ((htake _).append numeric_point).append (hdrop _)
  split
  · exact ((hzero.append numeric_point).append (numeric_zeros _)).append h
  · refine (((htake _).append ?_).append numeric_exponent).append (numeric_intRepr _)
    split
    · exact numeric_empty
    · exact numeric_point.append (hdrop _)

/-- No layout is empty, as each has a point or an exponent. -/
lemma layout_ne_nil (digits : String) (power : Int) :
    (Text.Decimal.layout digits power).toList ≠ [] := by
  simp only [Text.Decimal.layout]
  split
  · simp
  split
  · simp
  split
  · simp
  · simp

/-- A number is written with characters of numbers, or as `null`. -/
lemma numberText_cases (n : JsonNumber) :
    numberText n = "null" ∨ (Numeric (numberText n) ∧ (numberText n).toList ≠ []) := by
  cases n with
  | integer i =>
      obtain ⟨c, cs, htext, -⟩ := exists_integer_text i
      refine Or.inr ⟨numeric_intRepr i, ?_⟩
      rw [numberText, htext]
      exact List.cons_ne_nil _ _
  | float bits =>
      rw [numberText, Text.Decimal.render?]
      cases Text.Decimal.ofBits? bits with
      | none => exact Or.inl rfl
      | some value =>
          obtain ⟨negative, x⟩ := value
          have hsign : Numeric (if negative then "-" else "") := by
            cases negative
            · exact numeric_empty
            · exact numeric_sign
          refine Or.inr ?_
          simp only [Option.map_some, Option.getD_some]
          split
          · exact ⟨hsign.append (by simp [Numeric, IsNumeric]), by simp⟩
          · refine ⟨hsign.append (numeric_layout (numeric_natRepr _) _), ?_⟩
            rw [String.toList_append]
            exact List.append_ne_nil_of_right_ne_nil _ (layout_ne_nil _ _)

end Rebuild.Json
