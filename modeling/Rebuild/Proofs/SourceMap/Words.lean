import Rebuild.Proofs.SourceMap.Vlq
import Rebuild.Proofs.Text.Base64

/-!
# Numbers read in words

The digits of a number are put together in a word of 64 bits: each is shifted to its place, and the
signed number is cut out in the end.  A shift by 64 bits or more and the negation of the least number
have no result.

`readWords_eq`: neither happens, whatever the text, and what is read is what `decode` gives.  Before
each shift there are fewer than thirteen digits in the word (`Holds`), and a magnitude has 63 bits.
-/

namespace Rebuild.SourceMap.Vlq

/-- A word with its bits moved up, by fewer places than it has. -/
def shiftLeft? (word : UInt64) (places : Nat) : Option UInt64 :=
  if places < 64 then some (word <<< UInt64.ofNat places) else none

/-- A number with the other sign, unless it is the least. -/
def negate? (value : Int64) : Option Int64 := if value = Int64.minValue then none else some (-value)

/-- The signed number in a word: the lowest bit is the sign, the others are the magnitude. -/
def signed? (word : UInt64) : Option Int64 :=
  let magnitude := (word >>> 1).toInt64
  if word &&& 1 = 1 then negate? magnitude else some magnitude

/-- The numbers in a text, where the word holds what was read of the first; `none` if an operation has
no result. -/
def readWordsFrom (word : UInt64) (shift : Nat) (inNumber : Bool) :
    List Char → Option (Except Fault (List Int64))
  | [] => some (if inNumber then .error .truncatedVlq else .ok [])
  | c :: cs =>
    match Text.Base64.value? c with
    | none => some (.error (.invalidDigit c))
    | some digit => do
      let word := word ||| (← shiftLeft? (UInt64.ofNat digit &&& 31) shift)
      if UInt64.ofNat digit &&& 32 = 0 then
        let value ← signed? word
        return (← readWordsFrom 0 0 false cs).map (value :: ·)
      else if 64 ≤ shift + 5 then
        return .error .truncatedVlq
      else
        readWordsFrom word (shift + 5) true cs

/-- The numbers in a text, read in words. -/
def readWords (cs : List Char) : Option (Except Fault (List Int64)) := readWordsFrom 0 0 false cs

/-! ## One word -/

/-- The word holds the sum of so many digits. -/
structure Holds (word : UInt64) (sum count : Nat) : Prop where
  few : count < maxDigits
  below : sum < 32 ^ count
  word : word.toNat = sum

lemma holds_nothing : Holds 0 0 0 := ⟨by decide, by decide, rfl⟩

lemma toNat_payload (digit : Nat) : (UInt64.ofNat digit &&& 31).toNat = digit % 32 := by
  rw [UInt64.toNat_and, UInt64.toNat_ofNat', show (31 : UInt64).toNat = 2 ^ 5 - 1 from rfl,
    Nat.and_two_pow_sub_one_eq_mod]
  omega

/-- The bit above the payload says whether another digit follows. -/
lemma raised_bit_eq_zero_iff : ∀ digit < 64, UInt64.ofNat digit &&& 32 = 0 ↔ digit < 32 := by decide

/-- A digit that is shifted to its place lies above all that was there. -/
lemma Holds.or_shiftLeft {word : UInt64} {sum count : Nat} (h : Holds word sum count) (digit : Nat) :
    ∃ place, shiftLeft? (UInt64.ofNat digit &&& 31) (5 * count) = some place
      ∧ (word ||| place).toNat = (sum + digit % 32 * 32 ^ count) % UInt64.size := by
  have hfew : count < 13 := h.few
  refine ⟨_, if_pos (by omega), ?_⟩
  have hpow : (32 : Nat) ^ count = 2 ^ (5 * count) := by rw [pow_mul]; rfl
  have hbelow := h.below
  rw [hpow] at hbelow ⊢
  have hsplit : (2 : Nat) ^ 64 = 2 ^ (5 * count) * 2 ^ (64 - 5 * count) := by
    rw [← pow_add]
    congr 1
    omega
  have hplaces : (UInt64.ofNat (5 * count)).toNat % 64 = 5 * count := by
    rw [UInt64.toNat_ofNat']
    omega
  have hmod : (sum + 2 ^ (5 * count) * (digit % 32)) % 2 ^ (5 * count) = sum := by
    rw [Nat.add_mul_mod_self_left, Nat.mod_eq_of_lt hbelow]
  have hdiv : (sum + 2 ^ (5 * count) * (digit % 32)) / 2 ^ (5 * count) = digit % 32 := by
    rw [Nat.add_mul_div_left _ _ (Nat.two_pow_pos _), Nat.div_eq_of_lt hbelow, zero_add]
  rw [UInt64.toNat_or, UInt64.toNat_shiftLeft, toNat_payload, hplaces, h.word, Nat.shiftLeft_eq,
    show UInt64.size = 2 ^ 64 from rfl, hsplit, Nat.mul_comm (digit % 32), Nat.mul_mod_mul_left,
    Nat.or_comm, ← Nat.two_pow_add_eq_or_of_lt hbelow, Nat.mod_mul, hmod, hdiv, Nat.add_comm]

/-- With a raised digit there is one more in the word, and all of them fit. -/
lemma Holds.next {word word' : UInt64} {sum count digit : Nat} (h : Holds word sum count)
    (hcount : count + 1 < maxDigits)
    (hword : word'.toNat = (sum + digit % 32 * 32 ^ count) % UInt64.size) :
    Holds word' (sum + digit % 32 * 32 ^ count) (count + 1) := by
  have hbelow : sum + digit % 32 * 32 ^ count < 32 ^ (count + 1) := by
    have hdigit : digit % 32 * 32 ^ count ≤ 31 * 32 ^ count :=
      Nat.mul_le_mul_right _ (Nat.le_of_lt_succ (Nat.mod_lt _ (by omega)))
    have hsum := h.below
    rw [pow_succ]
    omega
  have hsize : (32 : Nat) ^ (count + 1) ≤ UInt64.size :=
    (Nat.pow_le_pow_right (by omega) (Nat.le_of_lt_succ hcount)).trans (by decide)
  exact ⟨hcount, hbelow, by rw [hword, Nat.mod_eq_of_lt (hbelow.trans_le hsize)]⟩

lemma toInt64_eq (word : UInt64) : word.toInt64 = Int64.ofInt (word.toNat : Nat) := by
  apply Int64.toBitVec_inj.1
  simp

/-- The magnitude has 63 bits, so that it can be negated. -/
lemma signed?_eq (word : UInt64) : signed? word = some (unfold word.toNat) := by
  have hmagnitude : (word >>> 1).toInt64 = Int64.ofInt (word.toNat / 2 : Nat) := by
    rw [toInt64_eq, UInt64.toNat_shiftRight]
    rfl
  have hsign : word &&& 1 = 1 ↔ word.toNat % 2 = 1 := by
    rw [← UInt64.toNat_inj, UInt64.toNat_and, show (1 : UInt64).toNat = 2 ^ 1 - 1 from rfl,
      Nat.and_two_pow_sub_one_eq_mod]
    rfl
  have hlt := word.toNat_lt
  have hne : Int64.ofInt (word.toNat / 2 : Nat) ≠ Int64.minValue := by
    intro h
    have hint := congrArg Int64.toInt h
    rw [Int64.toInt_ofInt_of_le (by omega) (by omega), Int64.toInt_minValue] at hint
    omega
  simp only [signed?, hmagnitude, hsign, unfold]
  split_ifs with hodd
  · rw [negate?, if_neg hne, Int64.ofInt_neg]
  · rfl

/-! ## The whole text -/

/-- Words read what sums read. -/
lemma readWordsFrom_eq {word : UInt64} {sum count : Nat} {cs : List Char} (h : Holds word sum count) :
    readWordsFrom word (5 * count) (count != 0) cs = some (decodeFrom sum count cs) := by
  induction cs generalizing word sum count with
  | nil =>
      rw [readWordsFrom, decodeFrom]
      by_cases hcount : count = 0 <;> simp [hcount]
  | cons c cs ih =>
      rw [readWordsFrom, decodeFrom]
      cases hvalue : Text.Base64.value? c with
      | none => rfl
      | some digit =>
          obtain ⟨place, hplace, hword⟩ := h.or_shiftLeft digit
          have hdigit := (Text.Base64.value?_eq_some_iff.1 hvalue).1
          simp only [hplace, raised_bit_eq_zero_iff digit hdigit]
          by_cases hlast : digit < 32
          · have hrest : readWordsFrom 0 0 false cs = some (decodeFrom 0 0 cs) := ih holds_nothing
            simp only [Option.bind_eq_bind, Option.bind_some, hlast, if_true, signed?_eq, hword, hrest]
            cases decodeFrom 0 0 cs <;> rfl
          · have hfull : 64 ≤ 5 * count + 5 ↔ ¬count + 1 < maxDigits := by
              simp only [maxDigits]
              omega
            simp only [hlast, if_false, hfull, ite_not]
            by_cases hcount : count + 1 < maxDigits
            · simp only [hcount, if_true]
              exact ih (h.next hcount hword)
            · simp only [hcount, if_false]
              rfl

/-- **No shift leaves the word, and no sign overflows**: what is read in words is what is read. -/
theorem readWords_eq (cs : List Char) : readWords cs = some (decode cs) := readWordsFrom_eq holds_nothing

end Rebuild.SourceMap.Vlq
