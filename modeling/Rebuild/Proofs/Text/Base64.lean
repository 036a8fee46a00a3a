import Mathlib.Tactic.Common
import Rebuild.Text.Base64
import Rebuild.Text.Basic

/-!
# Bytes read back from base 64

What is encoded is decoded again: `decode?_encode`.  The digits of a group are those of one number,
cut into pieces of six bits, and no digit is the sign that pads the last group.  All of them can stand
at the end of a line: `isBlank_of_mem_encode`.
-/

namespace Rebuild.Text.Base64

/-- The digits are those of the alphabet. -/
lemma value?_eq_some_iff {c : Char} {n : Nat} : value? c = some n ↔ n < 64 ∧ c = digit n := by
  constructor
  · intro h
    have hchar : ∀ {m : Nat}, c.toNat = m → c = Char.ofNat m := fun hm => by
      rw [← hm, Char.ofNat_toNat]
    rw [value?] at h
    split_ifs at h with hupper hlower hnumeral hplus hslash <;> simp only [Option.some.injEq] at h
    · have hle : 65 ≤ c.toNat ∧ c.toNat ≤ 90 := hupper
      rw [digit, if_pos (by omega)]
      exact ⟨by omega, hchar (by omega)⟩
    · have hle : 97 ≤ c.toNat ∧ c.toNat ≤ 122 := hlower
      rw [digit, if_neg (by omega), if_pos (by omega)]
      exact ⟨by omega, hchar (by omega)⟩
    · have hle : 48 ≤ c.toNat ∧ c.toNat ≤ 57 := hnumeral
      rw [digit, if_neg (by omega), if_neg (by omega), if_pos (by omega)]
      exact ⟨by omega, hchar (by omega)⟩
    · subst h
      exact ⟨by decide, hplus⟩
    · subst h
      exact ⟨by decide, hslash⟩
  · rintro ⟨hn, rfl⟩
    exact value?_digit n hn

lemma digit_ne_padding : ∀ n < 64, digit n ≠ '=' := by decide

/-! ## One group -/

section

variable {a b c d : Char} {rest : List Char}

/-- A group whose last sign is a digit stands for three bytes. -/
lemma decode?_cons (hd : d ≠ '=') : decode? (a :: b :: c :: d :: rest) = (do
    let n := (((← value? a) * 64 + (← value? b)) * 64 + (← value? c)) * 64 + (← value? d)
    let bytes ← decode? rest
    return UInt8.ofNat (n / 65536) :: UInt8.ofNat (n / 256) :: UInt8.ofNat n :: bytes) := by
  rw [decode?]
  · intro _ hpadding
    exact absurd hpadding hd
  · intro hpadding
    exact absurd hpadding hd

/-- A group whose third sign is a digit and whose last one is padding stands for two bytes. -/
lemma decode?_padded (hc : c ≠ '=') : decode? [a, b, c, '='] = (do
    let n := ((← value? a) * 64 + (← value? b)) * 64 + (← value? c)
    if n % 4 = 0 then return [UInt8.ofNat (n / 1024), UInt8.ofNat (n / 4)] else none) := by
  rw [decode?]
  exact hc

end

/-! ## All groups -/

/-- **What is encoded is decoded again.** -/
theorem decode?_encode (bytes : List UInt8) : decode? (encode bytes) = some bytes := by
  fun_induction encode bytes with
  | case1 => rfl
  | case2 a n =>
      have ha : a.toNat < 256 := a.toNat_lt
      have hn : n / 64 * 64 + n % 64 = n := by omega
      rw [decode?, value?_digit _ (by omega), value?_digit _ (by omega)]
      simp only [Option.bind_eq_bind, Option.bind_some, hn]
      rw [if_pos (by omega)]
      have hbyte : UInt8.ofNat (n / 16) = a := (UInt8.ofNat_eq_iff_mod_eq_toNat _ _).2 (by omega)
      rw [hbyte]
      rfl
  | case3 a b n =>
      have ha : a.toNat < 256 := a.toNat_lt
      have hb : b.toNat < 256 := b.toNat_lt
      have hn : (n / 4096 * 64 + n / 64 % 64) * 64 + n % 64 = n := by omega
      rw [decode?_padded (digit_ne_padding _ (by omega)), value?_digit _ (by omega),
        value?_digit _ (by omega), value?_digit _ (by omega)]
      simp only [Option.bind_eq_bind, Option.bind_some, hn]
      rw [if_pos (by omega)]
      have hfirst : UInt8.ofNat (n / 1024) = a := (UInt8.ofNat_eq_iff_mod_eq_toNat _ _).2 (by omega)
      have hsecond : UInt8.ofNat (n / 4) = b := (UInt8.ofNat_eq_iff_mod_eq_toNat _ _).2 (by omega)
      rw [hfirst, hsecond]
      rfl
  | case4 a b c rest n ih =>
      have ha : a.toNat < 256 := a.toNat_lt
      have hb : b.toNat < 256 := b.toNat_lt
      have hc : c.toNat < 256 := c.toNat_lt
      have hn : ((n / 262144 * 64 + n / 4096 % 64) * 64 + n / 64 % 64) * 64 + n % 64 = n := by omega
      rw [decode?_cons (digit_ne_padding _ (by omega)), value?_digit _ (by omega),
        value?_digit _ (by omega), value?_digit _ (by omega), value?_digit _ (by omega), ih]
      simp only [Option.bind_eq_bind, Option.bind_some, hn]
      have hfirst : UInt8.ofNat (n / 65536) = a := (UInt8.ofNat_eq_iff_mod_eq_toNat _ _).2 (by omega)
      have hsecond : UInt8.ofNat (n / 256) = b := (UInt8.ofNat_eq_iff_mod_eq_toNat _ _).2 (by omega)
      have hthird : UInt8.ofNat n = c := (UInt8.ofNat_eq_iff_mod_eq_toNat _ _).2 (by omega)
      rw [hfirst, hsecond, hthird]
      rfl

/-- What is encoded holds no blank, and so no line break. -/
lemma isBlank_of_mem_encode {c : Char} {bytes : List UInt8} (h : c ∈ encode bytes) :
    isBlank c = false := by
  have hdigit : ∀ n < 64, isBlank (digit n) = false := by decide
  have hpadding : isBlank '=' = false := by decide
  fun_induction encode bytes with
  | case1 => exact absurd h List.not_mem_nil
  | case2 a n =>
      have ha : a.toNat < 256 := a.toNat_lt
      simp only [List.mem_cons, List.not_mem_nil, or_false] at h
      rcases h with rfl | rfl | rfl | rfl
      exacts [hdigit _ (by omega), hdigit _ (by omega), hpadding, hpadding]
  | case3 a b n =>
      have ha : a.toNat < 256 := a.toNat_lt
      have hb : b.toNat < 256 := b.toNat_lt
      simp only [List.mem_cons, List.not_mem_nil, or_false] at h
      rcases h with rfl | rfl | rfl | rfl
      exacts [hdigit _ (by omega), hdigit _ (by omega), hdigit _ (by omega), hpadding]
  | case4 a b c' rest n ih =>
      have ha : a.toNat < 256 := a.toNat_lt
      have hb : b.toNat < 256 := b.toNat_lt
      have hc : c'.toNat < 256 := c'.toNat_lt
      simp only [List.mem_cons] at h
      rcases h with rfl | rfl | rfl | rfl | h
      exacts [hdigit _ (by omega), hdigit _ (by omega), hdigit _ (by omega), hdigit _ (by omega),
        ih h]

end Rebuild.Text.Base64
