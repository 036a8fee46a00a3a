import Rebuild.Proofs.SourceMap.Words

/-!
# Numbers written in words

A number is put into a word of 64 bits, its magnitude moved up by one place for the sign.  Five bits
make a digit each, and the word is moved down until nothing is left of it.

* **Writing.**  `writeWords_eq`: what is written in words is what `encodeAll` gives, and the alphabet has
  every digit that is asked for.
* **The least number.**  Its magnitude has 64 bits, and the highest of them is lost when it is moved up.
  What is left is zero with a sign, and this is what is read (`unfold_fold_eq`).
* **Endpoint.**  `numbers_restored_iff`.
-/

namespace Rebuild.SourceMap.Vlq

/-! ## Sign and magnitude -/

/-- The word of a number: the magnitude, moved up by one place, and the sign below it. -/
def signedWord (value : Int64) : UInt64 :=
  if value < 0 then value.abs.toUInt64 <<< 1 ||| 1 else value.toUInt64 <<< 1

/-- The magnitude fits a word; that of the least number takes all of it. -/
lemma toNat_abs (v : Int64) : v.abs.toUInt64.toNat = v.toInt.natAbs := by
  have hint : v.toInt = v.toBitVec.toInt := rfl
  have hlt := v.toBitVec.isLt
  rw [← Int64.toNat_toBitVec, Int64.toBitVec_abs, BitVec.toNat_abs, hint, BitVec.toInt_eq_msb_cond]
  split_ifs <;> omega

lemma toNat_toUInt64 {v : Int64} (h : 0 ≤ v.toInt) : v.toUInt64.toNat = v.toInt.natAbs := by
  have hint : v.toInt = v.toBitVec.toInt := rfl
  have hlt := v.toBitVec.isLt
  rw [hint, BitVec.toInt_eq_toNat_cond] at h ⊢
  rw [← Int64.toNat_toBitVec]
  split_ifs at h ⊢ <;> omega

/-- The highest bit is lost. -/
lemma toNat_shiftLeft_one (word : UInt64) : (word <<< 1).toNat = 2 * word.toNat % UInt64.size := by
  rw [UInt64.toNat_shiftLeft, show (1 : UInt64).toNat % 64 = 1 from rfl, Nat.shiftLeft_eq, pow_one,
    Nat.mul_comm]

lemma toNat_or_one {word : UInt64} (h : word.toNat % 2 = 0) :
    (word ||| 1).toNat = word.toNat + 1 := by
  have heven : word.toNat = 2 ^ 1 * (word.toNat / 2) := by omega
  rw [UInt64.toNat_or, heven, show (1 : UInt64).toNat = 1 from rfl,
    ← Nat.two_pow_add_eq_or_of_lt (show 1 < 2 ^ 1 by omega)]

lemma toNat_signedWord (v : Int64) : (signedWord v).toNat = fold v := by
  have hneg : v < 0 ↔ v.toInt < 0 := Int64.lt_iff_toInt_lt
  have hsize : UInt64.size = 2 ^ 64 := rfl
  simp only [signedWord, fold, hneg]
  split_ifs with h
  · rw [toNat_or_one, toNat_shiftLeft_one, toNat_abs]
    · rw [hsize]
      omega
    · rw [toNat_shiftLeft_one, hsize]
      omega
  · rw [toNat_shiftLeft_one, toNat_toUInt64 (Int.not_lt.1 h)]
    rfl

/-! ## Digits -/

/-- The digit with this number, if the alphabet has one. -/
def digit? (word : UInt64) : Option Char :=
  if word.toNat < 64 then some (Text.Base64.digit word.toNat) else none

lemma digit?_eq {word : UInt64} {d : Nat} (hword : word.toNat = d) (hd : d < 64) :
    digit? word = some (Text.Base64.digit d) := by
  rw [digit?, hword, if_pos hd]

lemma toNat_low (word : UInt64) : (word &&& 31).toNat = word.toNat % 32 := by
  simpa using toNat_payload word.toNat

lemma toNat_raised (word : UInt64) : (word &&& 31 ||| 32).toNat = word.toNat % 32 + 32 := by
  rw [UInt64.toNat_or, toNat_low, show (32 : UInt64).toNat = 2 ^ 5 * 1 from rfl, Nat.or_comm,
    ← Nat.two_pow_add_eq_or_of_lt (Nat.mod_lt _ (by omega)), Nat.add_comm]

lemma toNat_shiftRight_five (word : UInt64) : (word >>> 5).toNat = word.toNat / 32 := by
  rw [UInt64.toNat_shiftRight]
  exact Nat.shiftRight_eq_div_pow _ 5

/-- Nothing is left of a word that holds one digit. -/
lemma shiftRight_five_eq_zero_iff (word : UInt64) : word >>> 5 = 0 ↔ word.toNat < 32 := by
  rw [← UInt64.toNat_inj, toNat_shiftRight_five, show (0 : UInt64).toNat = 0 from rfl]
  omega

/-- The digits of a word, the lowest first; `none` if the alphabet lacks one of them. -/
def writeWord (word : UInt64) : Option (List Char) :=
  if word >>> 5 = 0 then return [← digit? (word &&& 31)]
  else return (← digit? (word &&& 31 ||| 32)) :: (← writeWord (word >>> 5))
termination_by word.toNat
decreasing_by
  rename_i hleft
  rw [shiftRight_five_eq_zero_iff] at hleft
  rw [toNat_shiftRight_five]
  omega

/-- The texts of numbers, one after the other, written in words. -/
def writeWords : List Int64 → Option (List Char)
  | [] => some []
  | v :: vs => return (← writeWord (signedWord v)) ++ (← writeWords vs)

lemma writeWord_eq (word : UInt64) : writeWord word = some (encodeNat word.toNat) := by
  fun_induction writeWord word with
  | case1 word hleft =>
      rw [shiftRight_five_eq_zero_iff] at hleft
      rw [digit?_eq (toNat_low word) (by omega), encodeNat_of_lt hleft, Nat.mod_eq_of_lt hleft]
      rfl
  | case2 word hleft ih =>
      rw [shiftRight_five_eq_zero_iff, Nat.not_lt] at hleft
      rw [digit?_eq (toNat_raised word) (by omega), ih, encodeNat_of_le hleft, toNat_shiftRight_five]
      rfl

/-- Words write what numbers write. -/
lemma writeWords_eq (vs : List Int64) : writeWords vs = some (encodeAll vs) := by
  induction vs with
  | nil => rfl
  | cons v vs ih =>
      rw [writeWords, writeWord_eq, toNat_signedWord, ih, encodeAll_cons]
      rfl

/-! ## What comes back -/

/-- What is read where a number was written: zero in the place of the least. -/
def restored (v : Int64) : Int64 := if v = Int64.minValue then 0 else v

lemma restored_eq_self_iff {v : Int64} : restored v = v ↔ v ≠ Int64.minValue := by
  rw [restored]
  split_ifs with h
  · subst h
    exact iff_of_false (by decide) (absurd rfl)
  · exact iff_of_true rfl h

lemma unfold_fold_eq (v : Int64) : unfold (fold v) = restored v := by
  rw [restored]
  split_ifs with h
  · rw [h]
    decide
  · exact unfold_fold h

lemma map_restored_eq_self_iff {vs : List Int64} : vs.map restored = vs ↔ Int64.minValue ∉ vs := by
  calc vs.map restored = vs
    _ ↔ vs.map restored = vs.map id := by rw [List.map_id]
    _ ↔ ∀ v ∈ vs, restored v = v := List.map_eq_map_iff
    _ ↔ ∀ v ∈ vs, v ≠ Int64.minValue := forall₂_congr fun _ _ => restored_eq_self_iff
    _ ↔ Int64.minValue ∉ vs := ⟨fun h hmem => h _ hmem rfl, fun h v hv heq => h (heq ▸ hv)⟩

/-- **All numbers but the least come back from their digits.**  Whatever numbers are written, they are
read again, with zero in the place of the least; so exactly the lists without the least number come back
as they were.  Written and read in words of 64 bits it is the same: the alphabet has all the digits, no
shift leaves the word and no sign overflows. -/
theorem numbers_restored_iff (vs : List Int64) :
    (decode (encodeAll vs) = .ok vs ↔ Int64.minValue ∉ vs)
    ∧ decode (encodeAll vs) = .ok (vs.map restored)
    ∧ writeWords vs = some (encodeAll vs)
    ∧ (writeWords vs).bind readWords = some (decode (encodeAll vs)) := by
  have hdecode : decode (encodeAll vs) = .ok (vs.map restored) := by
    rw [decode_encodeAll_fold]
    simp only [unfold_fold_eq]
  refine ⟨?_, hdecode, writeWords_eq vs, ?_⟩
  · rw [hdecode, Except.ok.injEq, map_restored_eq_self_iff]
  · rw [writeWords_eq, Option.bind_some, readWords_eq]

/-- The numbers next to the least come back, with thirteen digits each; the least does not. -/
example : decode (encodeAll [Int64.minValue + 1, Int64.maxValue, Int64.minValue])
    = .ok [Int64.minValue + 1, Int64.maxValue, 0] := by
  rw [decode_encodeAll_fold]
  decide

end Rebuild.SourceMap.Vlq
