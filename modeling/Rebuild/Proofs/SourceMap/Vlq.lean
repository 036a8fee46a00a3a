import Mathlib.Tactic.Common
import Mathlib.Tactic.Ring
import Rebuild.SourceMap.Vlq

/-!
# Numbers of variable length read back

A number is read from its digits by adding them up from the lowest on (`decodeFrom_encodeNat`), and
its sign and magnitude from the number so read (`unfold_fold`).  The least number is the only one
that does not come back: its magnitude needs the bit that the sign takes.
-/

namespace Rebuild.SourceMap.Vlq

/-! ## Digits -/

lemma encodeNat_of_lt {n : Nat} (h : n < 32) : encodeNat n = [Text.Base64.digit n] := by
  rw [encodeNat, if_pos h]

lemma encodeNat_of_le {n : Nat} (h : 32 ≤ n) :
    encodeNat n = Text.Base64.digit (n % 32 + 32) :: encodeNat (n / 32) := by
  rw [encodeNat, if_neg (Nat.not_lt.2 h)]

lemma encodeNat_ne_nil (n : Nat) : encodeNat n ≠ [] := by
  rcases Nat.lt_or_ge n 32 with h | h
  · simp [encodeNat_of_lt h]
  · simp [encodeNat_of_le h]

/-- Only digits are written. -/
lemma exists_digit_of_mem {n : Nat} {c : Char} (h : c ∈ encodeNat n) :
    ∃ d < 64, c = Text.Base64.digit d := by
  induction n using Nat.strongRecOn with
  | ind n ih =>
      rcases Nat.lt_or_ge n 32 with hn | hn
      · rw [encodeNat_of_lt hn, List.mem_singleton] at h
        exact ⟨n, by omega, h⟩
      · rw [encodeNat_of_le hn, List.mem_cons] at h
        rcases h with h | h
        · exact ⟨n % 32 + 32, by omega, h⟩
        · exact ih (n / 32) (by omega) h

/-- No digit separates segments or lines. -/
lemma digit_ne : ∀ d < 64, Text.Base64.digit d ≠ ',' ∧ Text.Base64.digit d ≠ ';' := by decide

lemma encodeAll_cons (v : Int64) (vs : List Int64) :
    encodeAll (v :: vs) = encode v ++ encodeAll vs := List.flatMap_cons

lemma encodeAll_ne_nil {vs : List Int64} (h : vs ≠ []) : encodeAll vs ≠ [] := by
  cases vs with
  | nil => exact absurd rfl h
  | cons v vs =>
      rw [encodeAll_cons]
      exact List.append_ne_nil_of_left_ne_nil (encodeNat_ne_nil _) _

/-- Numbers are written without separators. -/
lemma ne_of_mem_encodeAll {vs : List Int64} {c : Char} (h : c ∈ encodeAll vs) :
    c ≠ ',' ∧ c ≠ ';' := by
  obtain ⟨v, -, hc⟩ := List.mem_flatMap.1 h
  obtain ⟨d, hd, rfl⟩ := exists_digit_of_mem hc
  exact digit_ne d hd

/-! ## Reading -/

/-- The last digit of a number ends it. -/
lemma decodeFrom_last {sum count d : Nat} (cs : List Char) (h : d < 32) :
    decodeFrom sum count (Text.Base64.digit d :: cs)
      = (decode cs).map (unfold ((sum + d * 32 ^ count) % UInt64.size) :: ·) := by
  rw [decodeFrom, Text.Base64.value?_digit d (by omega)]
  simp only [if_pos h, Nat.mod_eq_of_lt h, decode]
  cases decodeFrom 0 0 cs <;> rfl

/-- A raised digit is followed by another one. -/
lemma decodeFrom_raised {sum count d : Nat} (cs : List Char) (h : d < 32)
    (hcount : count + 1 < maxDigits) :
    decodeFrom sum count (Text.Base64.digit (d + 32) :: cs)
      = decodeFrom (sum + d * 32 ^ count) (count + 1) cs := by
  have hdigit : (d + 32) % 32 = d := by omega
  rw [decodeFrom, Text.Base64.value?_digit (d + 32) (by omega)]
  simp only [if_neg (show ¬d + 32 < 32 by omega), if_pos hcount, hdigit]
  rfl

/-- The digits of a number are added up to what was read before, as long as there are not too
many. -/
lemma decodeFrom_encodeNat {sum count n : Nat} (cs : List Char) (h : n * 32 ^ count < 32 ^ maxDigits) :
    decodeFrom sum count (encodeNat n ++ cs)
      = (decode cs).map (unfold ((sum + n * 32 ^ count) % UInt64.size) :: ·) := by
  induction n using Nat.strongRecOn generalizing sum count with
  | ind n ih =>
      rcases Nat.lt_or_ge n 32 with hn | hn
      · rw [encodeNat_of_lt hn, List.singleton_append, decodeFrom_last cs hn]
      · have hsplit : n / 32 * 32 ^ (count + 1) + n % 32 * 32 ^ count = n * 32 ^ count := by
          rw [pow_succ', ← mul_assoc, ← add_mul, Nat.div_add_mod' n 32]
        have hcount : count + 1 < maxDigits := by
          refine (Nat.pow_lt_pow_iff_right (show 1 < 32 by omega)).1 (lt_of_le_of_lt ?_ h)
          rw [pow_succ']
          exact Nat.mul_le_mul_right _ hn
        rw [encodeNat_of_le hn, List.cons_append,
          decodeFrom_raised _ (Nat.mod_lt n (by omega)) hcount, ih (n / 32) (by omega) (by omega),
          add_assoc, add_comm (n % 32 * 32 ^ count), hsplit]

/-! ## Signs -/

lemma neg_size_lt_toInt (v : Int64) : -2 ^ 63 ≤ v.toInt ∧ v.toInt < 2 ^ 63 :=
  ⟨Int64.le_toInt v, Int64.toInt_lt v⟩

/-- Sign and magnitude fit 64 bits, unless the number is the least. -/
lemma fold_eq {v : Int64} (h : v ≠ Int64.minValue) :
    fold v = 2 * v.toInt.natAbs + (if v.toInt < 0 then 1 else 0) := by
  have hne : v.toInt ≠ -2 ^ 63 := fun hv => h (Int64.toInt_inj.1 (hv.trans (by decide)))
  have hrange := neg_size_lt_toInt v
  refine Nat.mod_eq_of_lt ?_
  have hsize : UInt64.size = 2 ^ 64 := rfl
  split_ifs <;> omega

/-- Sign and magnitude of a number give the number back. -/
lemma unfold_fold {v : Int64} (h : v ≠ Int64.minValue) : unfold (fold v) = v := by
  rw [fold_eq h, unfold]
  by_cases hneg : v.toInt < 0
  · rw [if_pos hneg, if_pos (by omega), show (2 * v.toInt.natAbs + 1) / 2 = v.toInt.natAbs by omega,
      show -((v.toInt.natAbs : Nat) : Int) = v.toInt by omega, Int64.ofInt_toInt]
  · rw [if_neg hneg, if_neg (by omega), show (2 * v.toInt.natAbs + 0) / 2 = v.toInt.natAbs by omega,
      show ((v.toInt.natAbs : Nat) : Int) = v.toInt by omega, Int64.ofInt_toInt]

lemma fold_lt (v : Int64) : fold v < UInt64.size := Nat.mod_lt _ (by decide)

/-- Numbers are read one after the other, each as what its sign and magnitude give. -/
lemma decode_encodeAll_fold (vs : List Int64) :
    decode (encodeAll vs) = .ok (vs.map fun v => unfold (fold v)) := by
  induction vs with
  | nil => rfl
  | cons v vs ih =>
      have hfits : fold v * 32 ^ 0 < 32 ^ maxDigits :=
        lt_of_lt_of_le (by simpa using fold_lt v) (by decide)
      rw [encodeAll_cons, decode, encode, decodeFrom_encodeNat _ hfits, ih, pow_zero, mul_one, zero_add,
        Nat.mod_eq_of_lt (fold_lt v)]
      rfl

/-- **Numbers read back** from their digits, all but the least. -/
theorem decode_encodeAll {vs : List Int64} (h : ∀ v ∈ vs, v ≠ Int64.minValue) :
    decode (encodeAll vs) = .ok vs := by
  rw [decode_encodeAll_fold, List.map_congr_left fun v hv => unfold_fold (h v hv), List.map_id']

end Rebuild.SourceMap.Vlq
