import Mathlib.Tactic.Common
import Rebuild.Text.Utf8

/-!
# Characters read back from their bytes

The bytes of a text are those of its characters, one character after the other
(`toList_utf8Encode`).  Each of them is read back from its bytes without a replacement
(`foldl_step_utf8EncodeChar`), and so is the text: `decodeLossy_toUTF8`.
-/

namespace Rebuild.Text.Utf8

/-! ## Bytes -/

lemma loop_eq (bytes : ByteArray) (i : Nat) (before : List UInt8) :
    ByteArray.toList.loop bytes i before = before.reverse ++ bytes.data.toList.drop i := by
  fun_induction ByteArray.toList.loop bytes i before with
  | case1 i before hi ih =>
      have hget : bytes.get! i = bytes.data[i] := getElem!_pos bytes.data i hi
      have hdrop : bytes.data.toList.drop i = bytes.get! i :: bytes.data.toList.drop (i + 1) := by
        rw [hget, List.drop_eq_getElem_cons (by simpa using hi), Array.getElem_toList]
      rw [ih, hdrop, List.reverse_cons, List.append_assoc, List.singleton_append]
  | case2 i before hi =>
      rw [List.drop_eq_nil_of_le (by simpa using hi), List.append_nil]

lemma toList_utf8Encode (text : List Char) :
    text.utf8Encode.toList = text.flatMap String.utf8EncodeChar := by
  rw [ByteArray.toList, loop_eq, List.utf8Encode, List.data_toByteArray]
  rfl

/-! ## One character -/

lemma leadBits_one (first : Nat) : leadBits first 1 = first - 0xC0 := rfl

lemma leadBits_two (first : Nat) : leadBits first 2 = first - 0xE0 := rfl

lemma leadBits_three (first : Nat) : leadBits first 3 = first - 0xF0 := rfl

section

variable {done : List Char} {p : Pending} {n d count low high : Nat}

/-- A first byte announces how many follow. -/
lemma step_first (hn : n < 256) (h : following? n = some (count + 1, low, high)) :
    step (none, done) (UInt8.ofNat n)
      = (some ⟨leadBits n (count + 1), count + 1, low, high⟩, done) := by
  rw [step, UInt8.toNat_ofNat', Nat.mod_eq_of_lt hn, start, h]
  rfl

/-- A byte that is not the last one adds six bits. -/
lemma step_more (hd : d < 64) (hlow : p.low ≤ d + 128) (hhigh : d + 128 ≤ p.high)
    (howed : 1 < p.owed) :
    step (some p, done) (UInt8.ofNat (d + 128))
      = (some ⟨p.value * 64 + d, p.owed - 1, 0x80, 0xBF⟩, done) := by
  have hbyte : d + 128 < 256 := by omega
  have hnot : ¬p.owed ≤ 1 := by omega
  simp [step, Nat.mod_eq_of_lt hbyte, hlow, hhigh, hnot]

/-- The last byte adds six bits, and ends the character. -/
lemma step_last (hd : d < 64) (hlow : p.low ≤ d + 128) (hhigh : d + 128 ≤ p.high)
    (howed : p.owed ≤ 1) :
    step (some p, done) (UInt8.ofNat (d + 128)) = (none, Char.ofNat (p.value * 64 + d) :: done) := by
  have hbyte : d + 128 < 256 := by omega
  simp [step, Nat.mod_eq_of_lt hbyte, hlow, hhigh, howed]

/-- What follows the first byte of a character of two bytes. -/
lemma following?_two (hlow : 0x80 ≤ n) (hhigh : n < 0x800) :
    following? (n / 64 % 32 + 192) = some (1, 0x80, 0xBF) := by
  rw [following?, if_neg (by omega), if_pos (by omega)]

/-- What follows the first byte of a character of three bytes: the halves of pairs are none. -/
lemma exists_following?_three (hlow : 0x800 ≤ n) (hhigh : n < 0x10000)
    (hpair : n < 0xD800 ∨ 0xDFFF < n) :
    ∃ low high, following? (n / 4096 % 16 + 224) = some (2, low, high)
      ∧ low ≤ n / 64 % 64 + 128 ∧ n / 64 % 64 + 128 ≤ high := by
  rw [following?, if_neg (by omega), if_neg (by omega)]
  split_ifs
  · exact ⟨_, _, rfl, by omega, by omega⟩
  · exact ⟨_, _, rfl, by omega, by omega⟩
  · exact ⟨_, _, rfl, by omega, by omega⟩
  all_goals omega

/-- What follows the first byte of a character of four bytes. -/
lemma exists_following?_four (hlow : 0x10000 ≤ n) (hhigh : n < 0x110000) :
    ∃ low high, following? (n / 262144 % 8 + 240) = some (3, low, high)
      ∧ low ≤ n / 4096 % 64 + 128 ∧ n / 4096 % 64 + 128 ≤ high := by
  rw [following?, if_neg (by omega), if_neg (by omega), if_neg (by omega), if_neg (by omega),
    if_neg (by omega)]
  split_ifs
  · exact ⟨_, _, rfl, by omega, by omega⟩
  · exact ⟨_, _, rfl, by omega, by omega⟩
  · exact ⟨_, _, rfl, by omega, by omega⟩
  · omega

end

/-- **A character is read back from its bytes.** -/
lemma foldl_step_utf8EncodeChar (c : Char) (done : List Char) :
    (String.utf8EncodeChar c).foldl step (none, done) = (none, c :: done) := by
  have hvalid : c.val.toNat < 0xD800 ∨ (0xDFFF < c.val.toNat ∧ c.val.toNat < 0x110000) := c.valid
  have hchar : Char.ofNat c.val.toNat = c := Char.ofNat_toNat c
  rw [String.utf8EncodeChar]
  generalize c.val.toNat = n at hvalid hchar
  subst hchar
  split_ifs with hone htwo hthree
  · have hbyte : n % 256 = n := by omega
    simp [step, hbyte, start, following?, show n < 128 by omega]
  · have hnumber : (n / 64 % 32 + 192 - 0xC0) * 64 + n % 64 = n := by omega
    simp only [List.foldl_cons, List.foldl_nil]
    rw [step_first (by omega) (following?_two (by omega) (by omega)),
      step_last (by omega) (by simp) (by simp; omega) (by simp)]
    rw [leadBits_one, hnumber]
  · obtain ⟨low, high, hfirst, hlow, hhigh⟩ :=
      exists_following?_three (n := n) (by omega) (by omega) (by omega)
    have hnumber : ((n / 4096 % 16 + 224 - 0xE0) * 64 + n / 64 % 64) * 64 + n % 64 = n := by omega
    simp only [List.foldl_cons, List.foldl_nil]
    rw [step_first (by omega) hfirst, step_more (by omega) hlow hhigh (by simp),
      step_last (by omega) (by simp) (by simp; omega) (by simp)]
    rw [leadBits_two, hnumber]
  · obtain ⟨low, high, hfirst, hlow, hhigh⟩ :=
      exists_following?_four (n := n) (by omega) (by omega)
    have hnumber : (((n / 262144 % 8 + 240 - 0xF0) * 64 + n / 4096 % 64) * 64 + n / 64 % 64) * 64
        + n % 64 = n := by omega
    simp only [List.foldl_cons, List.foldl_nil]
    rw [step_first (by omega) hfirst, step_more (by omega) hlow hhigh (by simp),
      step_more (by omega) (by simp) (by simp; omega) (by simp),
      step_last (by omega) (by simp) (by simp; omega) (by simp)]
    rw [leadBits_three, hnumber]

/-! ## Texts -/

lemma foldl_step_flatMap (text done : List Char) :
    (text.flatMap String.utf8EncodeChar).foldl step (none, done) = (none, text.reverse ++ done) := by
  induction text generalizing done with
  | nil => rfl
  | cons c text ih =>
      rw [List.flatMap_cons, List.foldl_append, foldl_step_utf8EncodeChar, ih]
      simp

/-- **A text is read back from its bytes**, without a replacement. -/
theorem decodeLossy_toUTF8 (s : String) : decodeLossy s.toUTF8.toList = s := by
  have hbytes : s.toUTF8.toList = s.toList.flatMap String.utf8EncodeChar := by
    rw [String.toUTF8, ← String.utf8Encode_toList, toList_utf8Encode]
  rw [decodeLossy, hbytes, foldl_step_flatMap]
  simp

end Rebuild.Text.Utf8
