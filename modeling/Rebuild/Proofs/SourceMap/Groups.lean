import Mathlib.Data.List.Basic
import Mathlib.Data.Nat.Digits.Defs
import Rebuild.Proofs.SourceMap.Words

/-!
# The grammar of numbers

A text is read exactly if it is a sequence of groups: up to twelve digits that are followed by another
one, and a last digit.

* **Reading.**  `decode_groups`, and `exists_groups_of_decode` for the other direction; both follow the
  digits that were read of the number that is under way.
* **Refusing.**  The first character that is no digit is told if no number before it is too long
  (`Strays`); every other text that is refused ends too early or has a number of too many digits.
* **Writing again.**  What was read is written with no more digits (`length_encodeAll_le`), and read
  again.  Leading zeros, bits beyond the word and the sign of zero get lost.
* **Endpoint.**  `decode_exact`.
-/

namespace Rebuild

namespace SourceMap.Vlq

open Text

/-! ## Groups -/

/-- Raised digits, each of which says that another one follows. -/
def raise (ds : List (Fin 32)) : List Char := ds.map fun d => Base64.digit (d.val + 32)

/-- The digits of one number, the lowest first: up to twelve raised ones, and the last. -/
structure Group where
  raised : List (Fin 32)
  last : Fin 32
  few : raised.length ≤ 12

namespace Group

/-- The text of a group. -/
def text (g : Group) : List Char := raise g.raised ++ [Base64.digit g.last.val]

/-- The number that the digits write, as far as 64 bits hold it. -/
def number (g : Group) : Nat := Nat.ofDigits 32 ((g.raised ++ [g.last]).map Fin.val) % 2 ^ 64

/-- What the number stands for: its lowest bit is the sign, the others are the magnitude. -/
def value (g : Group) : Int :=
  if g.number % 2 = 1 then -(g.number / 2 : Nat) else (g.number / 2 : Nat)

end Group

/-- A digit of the alphabet. -/
def IsDigit (c : Char) : Prop := ∃ d < 64, c = Base64.digit d

/-- A digit that says that another one follows. -/
def IsRaised (c : Char) : Prop := ∃ d < 32, c = Base64.digit (d + 32)

/-- Thirteen raised digits stand side by side. -/
def Overlong (cs : List Char) : Prop :=
  ∃ run : List Char, run.length = 13 ∧ (∀ c ∈ run, IsRaised c) ∧ run <:+: cs

/-- This is the first character that is no digit, and no number before it is too long. -/
def Strays (cs : List Char) (c : Char) : Prop :=
  ∃ before after, cs = before ++ c :: after ∧ (∀ d ∈ before, IsDigit d) ∧ ¬IsDigit c
    ∧ ¬Overlong before

variable {cs before after done : List Char} {c : Char} {ds : List (Fin 32)} {vs : List Int64}

/-! ## Digits -/

lemma isDigit_iff : IsDigit c ↔ ∃ d, Base64.value? c = some d := by
  simp only [IsDigit, Base64.value?_eq_some_iff]

/-- Every character is a raised digit, another digit or none. -/
lemma digit_cases (c : Char) : (∃ d : Fin 32, c = Base64.digit (d.val + 32))
    ∨ (∃ d : Fin 32, c = Base64.digit d.val) ∨ ¬IsDigit c := by
  by_cases h : IsDigit c
  · obtain ⟨d, hd, rfl⟩ := h
    rcases Nat.lt_or_ge d 32 with hlow | hhigh
    · exact .inr (.inl ⟨⟨d, hlow⟩, rfl⟩)
    · refine .inl ⟨⟨d - 32, by omega⟩, ?_⟩
      rw [Nat.sub_add_cancel hhigh]
  · exact .inr (.inr h)

lemma isDigit_last (d : Fin 32) : IsDigit (Base64.digit d.val) := ⟨d, by omega, rfl⟩

lemma isDigit_raised (d : Fin 32) : IsDigit (Base64.digit (d.val + 32)) := ⟨d + 32, by omega, rfl⟩

lemma not_isRaised_last (d : Fin 32) : ¬IsRaised (Base64.digit d.val) := by
  rintro ⟨e, he, hsame⟩
  have hvalue := Base64.value?_digit d.val (by omega)
  rw [hsame, Base64.value?_digit (e + 32) (by omega), Option.some.injEq] at hvalue
  omega

@[simp] lemma length_raise (ds : List (Fin 32)) : (raise ds).length = ds.length := by simp [raise]

lemma raise_concat (ds : List (Fin 32)) (d : Fin 32) :
    raise (ds ++ [d]) = raise ds ++ [Base64.digit (d.val + 32)] := by simp [raise]

/-! ## Numbers that are too long -/

lemma Overlong.mono (h : Overlong before) (hinside : before <:+: cs) : Overlong cs := by
  obtain ⟨run, hlength, hraised, hrun⟩ := h
  exact ⟨run, hlength, hraised, hrun.trans hinside⟩

lemma overlong_of_raised (hlength : done.length = 13) (hraised : ∀ c ∈ done, IsRaised c) :
    Overlong done := ⟨done, hlength, hraised, List.infix_rfl⟩

lemma not_overlong (h : done.length ≤ 12) : ¬Overlong done := by
  rintro ⟨run, hlength, -, hrun⟩
  have hle := hrun.length_le
  omega

/-- What does not hold a character stands before or behind it. -/
lemma infix_append_cons {run : List Char} (hmem : c ∉ run) (h : run <:+: before ++ c :: after) :
    run <:+: before ∨ run <:+: after := by
  obtain ⟨front, back, h⟩ := h
  rcases List.append_eq_append_iff.1 h with ⟨rest, rfl, -⟩ | ⟨rest, hfront, hback⟩
  · exact .inl ⟨front, rest, rfl⟩
  · rcases List.cons_eq_append_iff.1 hback with ⟨rfl, -⟩ | ⟨rest, rfl, rfl⟩
    · rw [List.append_nil] at hfront
      exact .inl ⟨front, [], by rw [List.append_nil, hfront]⟩
    · rcases List.append_eq_append_iff.1 hfront with ⟨more, -, rfl⟩ | ⟨more, -, hrest⟩
      · exact absurd (by simp) hmem
      · rcases List.cons_eq_append_iff.1 hrest with ⟨-, rfl⟩ | ⟨more, -, rfl⟩
        · exact absurd List.mem_cons_self hmem
        · exact .inr ⟨more, back, rfl⟩

/-- The last digit of a number parts what may be too long. -/
lemma overlong_append_last {d : Fin 32} :
    Overlong (before ++ Base64.digit d.val :: after) ↔ Overlong before ∨ Overlong after := by
  constructor
  · rintro ⟨run, hlength, hraised, hrun⟩
    have hmem : Base64.digit d.val ∉ run := fun h => not_isRaised_last d (hraised _ h)
    exact (infix_append_cons hmem hrun).imp (fun h => ⟨run, hlength, hraised, h⟩)
      fun h => ⟨run, hlength, hraised, h⟩
  · rintro (h | h)
    · exact h.mono (List.prefix_append _ _).isInfix
    · exact h.mono ((List.suffix_cons _ _).trans (List.suffix_append _ _)).isInfix

/-! ## Reading -/

/-- The sum of digits. -/
abbrev sumOf (ds : List (Fin 32)) : Nat := Nat.ofDigits 32 (ds.map Fin.val)

lemma sumOf_concat (ds : List (Fin 32)) (d : Fin 32) :
    sumOf (ds ++ [d]) = sumOf ds + d.val * 32 ^ ds.length := by
  rw [sumOf, List.map_append, Nat.ofDigits_append, List.map_singleton, Nat.ofDigits_singleton,
    List.length_map, Nat.mul_comm]

lemma toInt_unfold {n : Nat} (h : n < 2 ^ 64) :
    (unfold n).toInt = if n % 2 = 1 then -((n / 2 : Nat) : Int) else ((n / 2 : Nat) : Int) := by
  rw [unfold]
  split_ifs <;> rw [Int64.toInt_ofInt_of_le (by omega) (by omega)]

/-- What the digits that were read and the last one stand for. -/
lemma toInt_unfold_sum (hfew : ds.length ≤ 12) (d : Fin 32) :
    (unfold ((sumOf ds + d.val * 32 ^ ds.length) % UInt64.size)).toInt
      = Group.value ⟨ds, d, hfew⟩ := by
  rw [← sumOf_concat]
  exact toInt_unfold (Nat.mod_lt _ (by decide))

lemma decodeFrom_stray {sum count : Nat} (h : ¬IsDigit c) (cs : List Char) :
    decodeFrom sum count (c :: cs) = .error (.invalidDigit c) := by
  have hvalue : Base64.value? c = none := by
    rw [isDigit_iff] at h
    exact Option.eq_none_iff_forall_ne_some.2 fun d hd => h ⟨d, hd⟩
  rw [decodeFrom, hvalue]

/-- A number has no thirteenth raised digit. -/
lemma decodeFrom_full {sum count : Nat} (hcount : ¬count + 1 < maxDigits) (d : Fin 32)
    (cs : List Char) :
    decodeFrom sum count (Base64.digit (d.val + 32) :: cs) = .error .truncatedVlq := by
  rw [decodeFrom, Base64.value?_digit (d.val + 32) (by omega)]
  simp only [if_neg (show ¬d.val + 32 < 32 by omega), if_neg hcount]

/-- The raised digits of a group are added up. -/
lemma decodeFrom_raise (ds more : List (Fin 32)) (cs : List Char)
    (hfew : (ds ++ more).length ≤ 12) :
    decodeFrom (sumOf ds) ds.length (raise more ++ cs)
      = decodeFrom (sumOf (ds ++ more)) (ds ++ more).length cs := by
  induction more generalizing ds with
  | nil => simp [raise]
  | cons d more ih =>
      rw [List.append_cons] at hfew ⊢
      have hcount : ds.length + 1 < maxDigits := by
        simp only [List.length_append, List.length_singleton] at hfew
        simp only [maxDigits]
        omega
      rw [raise, List.map_cons, List.cons_append, decodeFrom_raised _ d.isLt hcount, ← sumOf_concat,
        ← ih _ hfew, List.length_append, List.length_singleton]
      rfl

/-- Groups are read one after the other. -/
lemma decode_groups (gs : List Group) :
    ∃ vs, decode (gs.flatMap Group.text) = .ok vs ∧ vs.map Int64.toInt = gs.map Group.value := by
  induction gs with
  | nil => exact ⟨[], rfl, rfl⟩
  | cons g gs ih =>
      obtain ⟨vs, hdecode, hvalues⟩ := ih
      refine ⟨unfold ((sumOf g.raised + g.last.val * 32 ^ g.raised.length) % UInt64.size) :: vs, ?_, ?_⟩
      · have hraise := decodeFrom_raise [] g.raised
          (Base64.digit g.last.val :: gs.flatMap Group.text) g.few
        rw [List.flatMap_cons, Group.text, List.append_assoc, List.singleton_append, decode]
        refine hraise.trans ?_
        rw [List.nil_append, decodeFrom_last _ g.last.isLt, hdecode]
        rfl
      · rw [List.map_cons, List.map_cons, toInt_unfold_sum g.few, hvalues]

/-- What was read was a sequence of groups, the first of which begins with the digits that were read
before. -/
lemma exists_groups_of_decodeFrom (ds : List (Fin 32)) (hfew : ds.length ≤ 12)
    (h : decodeFrom (sumOf ds) ds.length cs = .ok vs) :
    ∃ gs : List Group, raise ds ++ cs = gs.flatMap Group.text
      ∧ vs.map Int64.toInt = gs.map Group.value := by
  induction cs generalizing ds vs with
  | nil =>
      rw [decodeFrom] at h
      split_ifs at h with hcount
      obtain rfl := List.length_eq_zero_iff.1 hcount
      cases h
      exact ⟨[], rfl, rfl⟩
  | cons c cs ih =>
      rcases digit_cases c with ⟨d, rfl⟩ | ⟨d, rfl⟩ | hstray
      · by_cases hcount : ds.length + 1 < maxDigits
        · rw [decodeFrom_raised _ d.isLt hcount, ← sumOf_concat] at h
          rw [List.append_cons, ← raise_concat]
          have hlength : (ds ++ [d]).length = ds.length + 1 := by simp
          rw [← hlength] at h hcount
          exact ih _ (Nat.le_of_lt_succ hcount) h
        · rw [decodeFrom_full hcount] at h
          cases h
      · rw [decodeFrom_last _ d.isLt] at h
        cases hrest : decode cs with
        | error fault =>
            rw [hrest] at h
            cases h
        | ok rest =>
            rw [hrest] at h
            cases h
            obtain ⟨gs, htext, hvalues⟩ := ih [] (Nat.zero_le _) hrest
            refine ⟨⟨ds, d, hfew⟩ :: gs, ?_, ?_⟩
            · rw [List.flatMap_cons, ← htext, Group.text, List.append_assoc]
              rfl
            · rw [List.map_cons, List.map_cons, toInt_unfold_sum hfew, hvalues]
      · rw [decodeFrom_stray hstray] at h
        cases h

/-- **A text is read exactly if it is a sequence of groups.** -/
lemma decode_eq_ok_iff : decode cs = .ok vs ↔
    ∃ gs : List Group, cs = gs.flatMap Group.text ∧ vs.map Int64.toInt = gs.map Group.value := by
  constructor
  · exact exists_groups_of_decodeFrom [] (Nat.zero_le _)
  · rintro ⟨gs, rfl, hvalues⟩
    obtain ⟨vs', hdecode, hvalues'⟩ := decode_groups gs
    have hinjective : Function.Injective Int64.toInt := fun _ _ => Int64.toInt_inj.1
    rw [hdecode, List.map_injective_iff.2 hinjective (hvalues.trans hvalues'.symm)]

/-! ## Refusing -/

/-- The first character that is no digit is told if no number before it is too long. -/
lemma decodeFrom_of_strays (sum : Nat) (done : List Char) (hdone : ∀ d ∈ done, IsRaised d) (hlength : done.length ≤ 12)
    (hdigits : ∀ d ∈ before, IsDigit d) (hlong : ¬Overlong (done ++ before)) (hc : ¬IsDigit c) :
    decodeFrom sum done.length (before ++ c :: after) = .error (.invalidDigit c) := by
  induction before generalizing done sum with
  | nil => exact decodeFrom_stray hc after
  | cons x before ih =>
      have hbefore : ∀ d ∈ before, IsDigit d := fun d hd => hdigits d (List.mem_cons_of_mem _ hd)
      rcases digit_cases x with ⟨d, rfl⟩ | ⟨d, rfl⟩ | hstray
      · rw [List.append_cons] at hlong
        have hnext : ∀ y ∈ done ++ [Base64.digit (d.val + 32)], IsRaised y := by
          intro y hy
          rcases List.mem_append.1 hy with hy | hy
          · exact hdone y hy
          · exact ⟨d, d.isLt, List.mem_singleton.1 hy⟩
        have hcount : (done ++ [Base64.digit (d.val + 32)]).length ≤ 12 := by
          by_contra hfull
          refine hlong ((overlong_of_raised ?_ hnext).mono (List.prefix_append _ _).isInfix)
          simp only [List.length_append, List.length_singleton] at hfull ⊢
          omega
        have hnow : done.length + 1 < maxDigits := by simpa [maxDigits] using Nat.lt_succ_of_le hcount
        rw [List.cons_append, decodeFrom_raised _ d.isLt hnow]
        have hrest := ih (sum + d.val * 32 ^ done.length) _ hnext hcount hbefore hlong
        rwa [List.length_append, List.length_singleton] at hrest
      · rw [overlong_append_last, not_or] at hlong
        have hrest : decode (before ++ c :: after) = .error (.invalidDigit c) :=
          ih 0 [] (by simp) (by simp) hbefore hlong.2
        rw [List.cons_append, decodeFrom_last _ d.isLt, hrest]
        rfl
      · exact absurd (hdigits x List.mem_cons_self) hstray

/-- Whatever is told was the first character that is no digit. -/
lemma strays_of_decodeFrom (sum : Nat) (done : List Char) (hdone : done.length ≤ 12)
    (h : decodeFrom sum done.length cs = .error (.invalidDigit c)) :
    ∃ before after, cs = before ++ c :: after ∧ (∀ d ∈ before, IsDigit d) ∧ ¬IsDigit c
      ∧ ¬Overlong (done ++ before) := by
  induction cs generalizing done sum with
  | nil =>
      rw [decodeFrom] at h
      split_ifs at h
      cases h
  | cons x cs ih =>
      rcases digit_cases x with ⟨d, rfl⟩ | ⟨d, rfl⟩ | hstray
      · by_cases hcount : done.length + 1 < maxDigits
        · have hlength : (done ++ [Base64.digit (d.val + 32)]).length = done.length + 1 := by simp
          rw [decodeFrom_raised _ d.isLt hcount, ← hlength] at h
          rw [← hlength] at hcount
          obtain ⟨before, after, rfl, hdigits, hc, hlong⟩ := ih _ _ (Nat.le_of_lt_succ hcount) h
          refine ⟨_ :: before, after, rfl, List.forall_mem_cons.2 ⟨isDigit_raised d, hdigits⟩, hc, ?_⟩
          rwa [List.append_cons]
        · rw [decodeFrom_full hcount] at h
          cases h
      · rw [decodeFrom_last _ d.isLt] at h
        cases hrest : decode cs with
        | ok rest =>
            rw [hrest] at h
            cases h
        | error fault =>
            rw [hrest] at h
            cases h
            obtain ⟨before, after, rfl, hdigits, hc, hlong⟩ := ih 0 [] (by simp) hrest
            refine ⟨_ :: before, after, rfl, List.forall_mem_cons.2 ⟨isDigit_last d, hdigits⟩, hc, ?_⟩
            rw [overlong_append_last]
            exact not_or.2 ⟨not_overlong hdone, hlong⟩
      · rw [decodeFrom_stray hstray] at h
        cases h
        exact ⟨[], cs, rfl, by simp, hstray, by simpa using not_overlong hdone⟩

lemma decode_eq_invalidDigit_iff : decode cs = .error (.invalidDigit c) ↔ Strays cs c := by
  constructor
  · exact strays_of_decodeFrom 0 [] (by simp)
  · rintro ⟨before, after, rfl, hdigits, hc, hlong⟩
    exact decodeFrom_of_strays 0 [] (by simp) (by simp) hdigits (by simpa using hlong) hc

/-- There are two reasons to refuse a text. -/
lemma fault_cases {sum count : Nat} {fault : Fault} (h : decodeFrom sum count cs = .error fault) :
    fault = .truncatedVlq ∨ ∃ c, fault = .invalidDigit c := by
  induction cs generalizing sum count with
  | nil =>
      rw [decodeFrom] at h
      split_ifs at h
      cases h
      exact .inl rfl
  | cons c cs ih =>
      rcases digit_cases c with ⟨d, rfl⟩ | ⟨d, rfl⟩ | hstray
      · by_cases hcount : count + 1 < maxDigits
        · rw [decodeFrom_raised _ d.isLt hcount] at h
          exact ih h
        · rw [decodeFrom_full hcount] at h
          cases h
          exact .inl rfl
      · rw [decodeFrom_last _ d.isLt] at h
        cases hrest : decode cs with
        | ok rest =>
            rw [hrest] at h
            cases h
        | error fault =>
            rw [hrest] at h
            cases h
            exact ih hrest
      · rw [decodeFrom_stray hstray] at h
        cases h
        exact .inr ⟨c, rfl⟩

/-! ## Writing again -/

/-- Fewer digits do for a smaller number. -/
lemma length_encodeNat_le {n k : Nat} (h : n < 32 ^ (k + 1)) : (encodeNat n).length ≤ k + 1 := by
  induction k generalizing n with
  | zero => simp [encodeNat_of_lt (n := n) (by omega)]
  | succ k ih =>
      rcases Nat.lt_or_ge n 32 with hn | hn
      · simp [encodeNat_of_lt hn]
      · have hdiv : n / 32 < 32 ^ (k + 1) := by
          rw [Nat.div_lt_iff_lt_mul (by omega), ← pow_succ]
          exact h
        rw [encodeNat_of_le hn, List.length_cons]
        exact Nat.succ_le_succ (ih hdiv)

/-- Only zero with a sign is written otherwise than it was. -/
lemma fold_unfold_le {n : Nat} (h : n < 2 ^ 64) : fold (unfold n) ≤ n := by
  have hsize : UInt64.size = 2 ^ 64 := rfl
  rw [fold, toInt_unfold h]
  refine (Nat.mod_le _ _).trans ?_
  split_ifs <;> omega

/-- What a group stands for needs no more digits than the group has. -/
lemma length_encode_le {g : Group} {v : Int64} (h : v.toInt = g.value) :
    (encode v).length ≤ g.text.length := by
  have hnumber : g.number < 2 ^ 64 := Nat.mod_lt _ (by decide)
  have hv : v = unfold g.number := by
    rw [← Int64.toInt_inj, h, toInt_unfold hnumber]
    rfl
  have hsum : sumOf (g.raised ++ [g.last]) < 32 ^ (g.raised.length + 1) := by
    have hdigits : ∀ d ∈ (g.raised ++ [g.last]).map Fin.val, d < 32 := by
      intro d hd
      obtain ⟨e, -, rfl⟩ := List.mem_map.1 hd
      exact e.isLt
    have hlt := Nat.ofDigits_lt_base_pow_length (by omega) hdigits
    rwa [List.length_map, List.length_append, List.length_singleton] at hlt
  have hlt : fold v < 32 ^ (g.raised.length + 1) := by
    rw [hv]
    exact ((fold_unfold_le hnumber).trans (Nat.mod_le _ _)).trans_lt hsum
  rw [encode, Group.text, List.length_append, length_raise]
  exact length_encodeNat_le hlt

/-- What was read is written with no more digits. -/
lemma length_encodeAll_le {gs : List Group} (h : vs.map Int64.toInt = gs.map Group.value) :
    (encodeAll vs).length ≤ (gs.flatMap Group.text).length := by
  induction vs generalizing gs with
  | nil => exact Nat.zero_le _
  | cons v vs ih =>
      cases gs with
      | nil => cases h
      | cons g gs =>
          rw [List.map_cons, List.map_cons, List.cons.injEq] at h
          rw [encodeAll_cons, List.flatMap_cons, List.length_append, List.length_append]
          exact Nat.add_le_add (length_encode_le h.1) (ih h.2)

/-- No group stands for the least number. -/
lemma ne_minValue_of_value {g : Group} {v : Int64} (h : v.toInt = g.value) : v ≠ Int64.minValue := by
  rintro rfl
  have hnumber : g.number < 2 ^ 64 := Nat.mod_lt _ (by decide)
  rw [Int64.toInt_minValue, Group.value] at h
  split_ifs at h <;> omega

/-- What was read is read again when it is written. -/
lemma decode_encodeAll_of_groups {gs : List Group} (h : vs.map Int64.toInt = gs.map Group.value) :
    decode (encodeAll vs) = .ok vs := by
  refine decode_encodeAll fun v hv => ?_
  have hmem : v.toInt ∈ gs.map Group.value := h ▸ List.mem_map_of_mem hv
  obtain ⟨g, -, hg⟩ := List.mem_map.1 hmem
  exact ne_minValue_of_value hg.symm

/-! ## Both -/

/-- **Numbers are read by their grammar.**  A text is read exactly if it is a sequence of groups, and
then as the values of these; what is told of any other text depends on what stands before its first
character that is no digit.  What was read can be written in no more digits and read again.  When numbers
are read in words, no shift leaves the word and no sign overflows. -/
theorem decode_exact (cs : List Char) :
    (∀ vs, decode cs = .ok vs ↔ ∃ gs : List Group,
      cs = gs.flatMap Group.text ∧ vs.map Int64.toInt = gs.map Group.value)
    ∧ (∀ c, decode cs = .error (.invalidDigit c) ↔ Strays cs c)
    ∧ (decode cs = .error .truncatedVlq ↔
      (¬∃ gs : List Group, cs = gs.flatMap Group.text) ∧ ¬∃ c, Strays cs c)
    ∧ (∀ vs, decode cs = .ok vs →
      (encodeAll vs).length ≤ cs.length ∧ decode (encodeAll vs) = .ok vs)
    ∧ readWords cs = some (decode cs) := by
  refine ⟨fun vs => decode_eq_ok_iff, fun c => decode_eq_invalidDigit_iff, ?_, ?_, readWords_eq cs⟩
  · constructor
    · intro h
      refine ⟨?_, ?_⟩
      · rintro ⟨gs, rfl⟩
        obtain ⟨vs, hdecode, -⟩ := decode_groups gs
        rw [hdecode] at h
        cases h
      · rintro ⟨c, hc⟩
        rw [decode_eq_invalidDigit_iff.2 hc] at h
        cases h
    · rintro ⟨hgroups, hstrays⟩
      cases hdecode : decode cs with
      | ok vs =>
          obtain ⟨gs, hgs, -⟩ := decode_eq_ok_iff.1 hdecode
          exact absurd ⟨gs, hgs⟩ hgroups
      | error fault =>
          rcases fault_cases hdecode with rfl | ⟨c, rfl⟩
          · rfl
          · exact absurd ⟨c, decode_eq_invalidDigit_iff.1 hdecode⟩ hstrays
  · intro vs hvs
    obtain ⟨gs, rfl, hvalues⟩ := decode_eq_ok_iff.1 hvs
    exact ⟨length_encodeAll_le hvalues, decode_encodeAll_of_groups hvalues⟩

end SourceMap.Vlq
end Rebuild
