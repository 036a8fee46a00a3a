import Mathlib.Tactic.Common
import Rebuild.Json.Printer
import Rebuild.Json.Reader

/-!
# Strings and integers that read back

What `scalarText` writes, the reader reads, whatever follows a quote, and for a number whatever
cannot be a part of it (`Ends`).

* **Strings.**  `readString_escaped` for all strings: a control character is written by its number,
  and the reader looks past it for a second half.
* **Integers.**  `readNumber_integer` for the integers that fit 64 bits; the digits are those of
  `Nat.toDigits`.
-/

namespace Rebuild

namespace Text.Hex

lemma value?_digit : ∀ n < 16, value? (digit n) = some n := by decide

end Text.Hex

namespace Json

/-! ## Strings -/

/-- The number of a control character, in four digits. -/
lemma hex4?_ofNat : ∀ n < 32, ∃ a b c d, Text.Hex.ofNat 4 n = [a, b, c, d]
    ∧ hex4? a b c d = some n := by
  intro n hn
  refine ⟨Text.Hex.digit (n / 16 / 16 / 16 % 16), Text.Hex.digit (n / 16 / 16 % 16),
    Text.Hex.digit (n / 16 % 16), Text.Hex.digit (n % 16), rfl, ?_⟩
  simp only [hex4?, Text.Hex.value?_digit _ (Nat.mod_lt _ (by decide : 0 < 16))]
  show some _ = some n
  congr 1
  omega

/-- The characters that are written by their numbers. -/
def IsControl (c : Char) : Prop :=
  c ≠ '\n' ∧ c ≠ '\r' ∧ c ≠ '\t' ∧ c.toNat ≠ 8 ∧ c.toNat ≠ 12 ∧ c.toNat < 32

/-- A second half would follow the first at once. -/
def NoHalf (cs : List Char) : Prop :=
  ∀ e f g h rest, cs = '\\' :: 'u' :: e :: f :: g :: h :: rest → (hex4? e f g h).isSome

lemma escapeChar_of_isControl {c : Char} (h : IsControl c) :
    escapeChar c = ['\\', 'u'] ++ Text.Hex.ofNat 4 c.toNat := by
  obtain ⟨hn, hr, ht, hb, hf, hlt⟩ := h
  have hquote : c ≠ '"' := by
    rintro rfl
    exact absurd hlt (by decide)
  have hslash : c ≠ '\\' := by
    rintro rfl
    exact absurd hlt (by decide)
  simp only [escapeChar, if_neg hquote, if_neg hslash, if_neg hn, if_neg hr, if_neg ht, if_neg hb,
    if_neg hf, if_pos hlt]

/-- The five ways in which a character is written. -/
lemma escapeChar_cases (c : Char) :
    IsControl c ∨ (∃ x, escapeChar c = ['\\', x] ∧ x ≠ 'u' ∧ shortEscape? x = some c)
      ∨ (escapeChar c = [c] ∧ c ≠ '"' ∧ c ≠ '\\' ∧ ¬c.toNat < 32) := by
  by_cases hquote : c = '"'
  · exact Or.inr (Or.inl ⟨'"', by rw [hquote]; decide, by decide, by rw [hquote]; decide⟩)
  by_cases hslash : c = '\\'
  · exact Or.inr (Or.inl ⟨'\\', by rw [hslash]; decide, by decide, by rw [hslash]; decide⟩)
  by_cases hn : c = '\n'
  · exact Or.inr (Or.inl ⟨'n', by rw [hn]; decide, by decide, by rw [hn]; decide⟩)
  by_cases hr : c = '\r'
  · exact Or.inr (Or.inl ⟨'r', by rw [hr]; decide, by decide, by rw [hr]; decide⟩)
  by_cases ht : c = '\t'
  · exact Or.inr (Or.inl ⟨'t', by rw [ht]; decide, by decide, by rw [ht]; decide⟩)
  by_cases hb : c.toNat = 8
  · have hc : c = Char.ofNat 8 := by rw [← hb, Char.ofNat_toNat]
    exact Or.inr (Or.inl ⟨'b', by rw [hc]; decide, by decide, by rw [hc]; decide⟩)
  by_cases hf : c.toNat = 12
  · have hc : c = Char.ofNat 12 := by rw [← hf, Char.ofNat_toNat]
    exact Or.inr (Or.inl ⟨'f', by rw [hc]; decide, by decide, by rw [hc]; decide⟩)
  by_cases hlt : c.toNat < 32
  · exact Or.inl ⟨hn, hr, ht, hb, hf, hlt⟩
  · refine Or.inr (Or.inr ⟨?_, hquote, hslash, hlt⟩)
    simp only [escapeChar, if_neg hquote, if_neg hslash, if_neg hn, if_neg hr, if_neg ht, if_neg hb,
      if_neg hf, if_neg hlt]

/-- Where the text of a string goes on, no half of a pair stands alone. -/
lemma noHalf_escaped (s : List Char) (rest : List Char) :
    NoHalf (s.flatMap escapeChar ++ '"' :: rest) := by
  intro e f g h tail heq
  cases s with
  | nil => cases heq
  | cons c s =>
      rw [List.flatMap_cons, List.append_assoc] at heq
      rcases escapeChar_cases c with hcontrol | ⟨x, hescape, hx, -⟩ | ⟨hescape, -, hslash, -⟩
      · obtain ⟨a, b, c', d, hdigits, hvalue⟩ := hex4?_ofNat c.toNat hcontrol.2.2.2.2.2
        rw [escapeChar_of_isControl hcontrol, hdigits] at heq
        cases heq
        rw [hvalue]
        rfl
      · simp only [hescape, List.cons_append, List.nil_append, List.cons.injEq] at heq
        exact absurd heq.2.1 hx
      · simp only [hescape, List.cons_append, List.nil_append, List.cons.injEq] at heq
        exact absurd heq.1 hslash

/-- A number of four digits below the surrogates is one character. -/
lemma readString_number {a b c d : Char} {code : Nat} {more done : List Char}
    (hcode : hex4? a b c d = some code) (hlt : code < 0xD800) (hmore : NoHalf more) :
    readString ('\\' :: 'u' :: a :: b :: c :: d :: more) done
      = readString more (Char.ofNat code :: done) := by
  have hlow : ¬(0xD800 ≤ code) := by omega
  rw [readString.eq_def]
  split
  all_goals rename_i heq
  · cases heq
  · cases heq
  · cases heq
    obtain ⟨second, hsecond⟩ := Option.isSome_iff_exists.1 (hmore _ _ _ _ _ rfl)
    have hhigh : ¬(0xDC00 ≤ code) := by omega
    simp only [hcode, hsecond, bind, Option.bind, hlow, hhigh, false_and, if_false]
  · cases heq
    simp only [hcode, bind, Option.bind, hlow, false_and, if_false]
  · cases heq
    rename_i hne
    exact absurd rfl (hne _ _ _ _ _ rfl)
  · cases heq
    rename_i hne
    exact absurd rfl (hne _ _ rfl)

/-- **A string reads back**, whatever follows its closing quote. -/
lemma readString_escaped (s rest done : List Char) :
    readString (s.flatMap escapeChar ++ '"' :: rest) done
      = some (String.ofList (done.reverse ++ s), rest) := by
  induction s generalizing done with
  | nil => rw [List.flatMap_nil, List.nil_append, readString, List.append_nil]
  | cons c s ih =>
      have hmore := noHalf_escaped s rest
      have hdone : (c :: done).reverse ++ s = done.reverse ++ c :: s := by simp
      have htail := ih (c :: done)
      rw [hdone] at htail
      rw [List.flatMap_cons, List.append_assoc]
      rcases escapeChar_cases c with hcontrol | ⟨x, hescape, hx, hshort⟩
        | ⟨hescape, hquote, hslash, hlow⟩
      · obtain ⟨a, b, c', d, hdigits, hvalue⟩ := hex4?_ofNat c.toNat hcontrol.2.2.2.2.2
        have hlt : c.toNat < 0xD800 := Nat.lt_trans hcontrol.2.2.2.2.2 (by decide)
        rw [escapeChar_of_isControl hcontrol, hdigits]
        refine (readString_number hvalue hlt hmore).trans ?_
        rw [Char.ofNat_toNat]
        exact htail
      · rw [hescape]
        refine Eq.trans ?_ htail
        show readString ('\\' :: x :: (s.flatMap escapeChar ++ '"' :: rest)) done = _
        rw [readString]
        · simp only [hshort, bind, Option.bind]
        · intro a b c d e f g h cs hu
          exact absurd hu hx
        · intro a b c d cs hu
          exact absurd hu hx
      · rw [hescape]
        refine Eq.trans ?_ htail
        show readString (c :: (s.flatMap escapeChar ++ '"' :: rest)) done = _
        rw [readString]
        · rw [if_neg hlow]
        all_goals simp [hquote, hslash]

/-! ## Integers -/

/-- Nothing that could be a part of a number comes first. -/
def Ends (rest : List Char) : Prop :=
  ∀ c ∈ rest.head?, c.isDigit = false ∧ c ≠ '.' ∧ c ≠ 'e' ∧ c ≠ 'E'

lemma takeWhile_append_of_all {p : Char → Bool} {front rest : List Char} (hfront : ∀ c ∈ front, p c)
    (hrest : ∀ c ∈ rest.head?, p c = false) :
    (front ++ rest).takeWhile p = front ∧ (front ++ rest).dropWhile p = rest := by
  induction front with
  | nil =>
      cases rest with
      | nil => exact ⟨rfl, rfl⟩
      | cons c rest =>
          have hc : p c = false := hrest c rfl
          simp [hc]
  | cons c front ih =>
      have hc : p c = true := hfront c List.mem_cons_self
      obtain ⟨htake, hdrop⟩ := ih fun d hd => hfront d (List.mem_cons_of_mem _ hd)
      simp [hc, htake, hdrop]

/-- No number but zero is written with a zero in front. -/
lemma head?_toDigits {n : Nat} (h : 0 < n) : (Nat.toDigits 10 n).head? ≠ some '0' := by
  induction n using Nat.strongRecOn with
  | ind n ih =>
      by_cases hlt : n < 10
      · rw [Nat.toDigits_of_lt_base hlt]
        have hdigit : ∀ m < 10, 0 < m → [Nat.digitChar m].head? ≠ some '0' := by decide
        exact hdigit n hlt h
      · have hquot : 0 < n / 10 := by omega
        have hquotient := ih (n / 10) (by omega) hquot
        rw [Nat.toDigits_of_base_le (by decide) (by omega)]
        cases hdigits : Nat.toDigits 10 (n / 10) with
        | nil => exact absurd hdigits Nat.toDigits_ne_nil
        | cons c cs =>
            rw [hdigits] at hquotient
            exact hquotient

lemma isDigit_toDigits {n : Nat} {c : Char} (h : c ∈ Nat.toDigits 10 n) : c.isDigit = true :=
  Nat.isDigit_of_mem_toDigits (by decide) (by decide) h

/-- The digits of a number, read back as digits. -/
lemma takeDigits_toDigits (n : Nat) {rest : List Char} (h : Ends rest) :
    takeDigits (Nat.toDigits 10 n ++ rest)
      = ((Nat.toDigits 10 n).map fun c => c.toNat - 48, rest) := by
  obtain ⟨htake, hdrop⟩ := takeWhile_append_of_all
    (fun c (hc : c ∈ Nat.toDigits 10 n) => isDigit_toDigits hc) fun c hc => (h c hc).1
  rw [takeDigits, htake, hdrop]

lemma digitsValue_toDigits (n : Nat) :
    digitsValue ((Nat.toDigits 10 n).map fun c => c.toNat - 48) = n := by
  rw [digitsValue, List.foldl_map]
  have hvalue := @Nat.ofDigitChars_ten_toDigits n
  rw [Nat.ofDigitChars_eq_foldl] at hvalue
  exact hvalue

lemma readWhole_of_takeDigits {cs rest : List Char} {d : Nat} {ds : List Nat}
    (h : takeDigits cs = (d :: ds, rest)) (hzero : d ≠ 0 ∨ ds = []) :
    readWhole cs = some (d :: ds, rest) := by
  rw [readWhole, h]
  cases d with
  | zero =>
      rcases hzero with hne | rfl
      · exact absurd rfl hne
      · rfl
  | succ d => rfl

lemma toNat_sub_ne_zero {c : Char} (hdigit : c.isDigit = true) (hne : c ≠ '0') :
    c.toNat - 48 ≠ 0 := by
  intro hzero
  have hle : 48 ≤ c.toNat := by
    simp only [Char.isDigit, Bool.and_eq_true, decide_eq_true_eq] at hdigit
    exact UInt32.le_iff_toNat_le.1 hdigit.1
  have hc : c.toNat = 48 := by omega
  refine hne ?_
  rw [← Char.ofNat_toNat c, hc]

lemma readWhole_toDigits (n : Nat) {rest : List Char} (h : Ends rest) :
    readWhole (Nat.toDigits 10 n ++ rest)
      = some ((Nat.toDigits 10 n).map fun c => c.toNat - 48, rest) := by
  have htake := takeDigits_toDigits n h
  rcases Nat.eq_zero_or_pos n with rfl | hpos
  · exact readWhole_of_takeDigits htake (Or.inr rfl)
  · have hhead := head?_toDigits hpos
    have hdigit : ∀ c ∈ Nat.toDigits 10 n, c.isDigit = true := fun c hc => isDigit_toDigits hc
    revert htake
    cases hdigits : Nat.toDigits 10 n with
    | nil => exact absurd hdigits Nat.toDigits_ne_nil
    | cons c cs =>
        intro htake
        rw [hdigits] at hhead hdigit
        have hne : c ≠ '0' := fun hc => hhead (congrArg some hc)
        exact readWhole_of_takeDigits htake
          (Or.inl (toNat_sub_ne_zero (hdigit c List.mem_cons_self) hne))

/-- The integers that have a text which reads back. -/
def IsWord (i : Int) : Prop := -(UInt64.size : Int) ≤ 2 * i ∧ i < UInt64.size

lemma readMagnitude_toDigits (negative : Bool) (n : Nat) {rest : List Char} (h : Ends rest)
    (hrange : if negative then 0 < n ∧ 2 * n ≤ UInt64.size else n < UInt64.size) :
    readMagnitude negative (Nat.toDigits 10 n ++ rest)
      = some (.integer (if negative then -n else n), rest) := by
  have hfraction : readFraction rest = some (none, rest) := by
    cases rest with
    | nil => rfl
    | cons c rest =>
        have hc : c ≠ '.' := (h c rfl).2.1
        rw [readFraction.eq_def]
        split
        · rename_i heq
          exact absurd (List.cons.inj heq).1 hc
        · rfl
  have hexponent : readExponent rest = some (0, rest) := by
    cases rest with
    | nil => rfl
    | cons c rest =>
        have hc : ¬(c = 'e' ∨ c = 'E') := not_or.2 (h c rfl).2.2
        simp only [readExponent.eq_def, if_neg hc]
  simp only [readMagnitude, readWhole_toDigits n h, hfraction, hexponent, digitsValue_toDigits, bind,
    Option.bind, Option.isNone_none, beq_self_eq_true, Bool.true_and]
  cases negative with
  | false =>
      simp only [Bool.false_eq_true, if_false] at hrange
      simp only [Bool.not_false, Bool.true_and, Bool.false_eq_true, if_false, if_true,
        decide_eq_true hrange]
      rfl
  | true =>
      simp only [if_true] at hrange
      simp only [Bool.not_true, Bool.true_and, Bool.false_and, Bool.false_eq_true, if_false,
        if_true, decide_eq_true hrange.1, decide_eq_true hrange.2]
      rfl

/-- **An integer of 64 bits reads back**, whatever follows that cannot be a part of it. -/
lemma readNumber_integer {i : Int} (hi : IsWord i) {rest : List Char} (h : Ends rest) :
    readNumber (i.repr.toList ++ rest) = some (.integer i, rest) := by
  obtain ⟨hlow, hhigh⟩ := hi
  by_cases hsign : 0 ≤ i
  · obtain ⟨n, rfl⟩ := Int.eq_ofNat_of_zero_le hsign
    have hlt : n < UInt64.size := by exact_mod_cast hhigh
    have htext : (n : Int).repr.toList = Nat.toDigits 10 n := by
      rw [Int.repr_eq_if, if_pos hsign, Int.toNat_natCast, Nat.toList_repr]
    rw [htext, readNumber.eq_def]
    have hread := readMagnitude_toDigits false n h (by simpa using hlt)
    split
    · rename_i cs heq
      cases hdigits : Nat.toDigits 10 n with
      | nil => exact absurd hdigits Nat.toDigits_ne_nil
      | cons c digits =>
          have hc : c.isDigit = true := isDigit_toDigits (hdigits ▸ List.mem_cons_self)
          rw [hdigits] at heq
          cases (List.cons.inj heq).1
          cases hc
    · exact hread
  · obtain ⟨n, hn⟩ := Int.eq_ofNat_of_zero_le (by omega : 0 ≤ -i)
    obtain rfl : i = -(n : Int) := by omega
    have htext : (-(n : Int)).repr.toList = '-' :: Nat.toDigits 10 n := by
      rw [Int.repr_eq_if, if_neg hsign, Int.neg_neg, Int.toNat_natCast, String.toList_append,
        Nat.toList_repr]
      rfl
    have hread := readMagnitude_toDigits true n h (by simp; omega)
    rw [htext]
    exact hread

end Json
end Rebuild
