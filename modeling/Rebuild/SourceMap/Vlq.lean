import Rebuild.SourceMap.Fault
import Rebuild.Text.Base64

/-!
# Numbers of variable length

A signed 64-bit number is written as base-32 digits, the lowest first; a digit above 31 says that
another one follows.  The lowest bit of the number so written is the sign.

Writing and reading both work modulo `2 ^ 64`, so the one number whose magnitude needs 64 bits, the
least, is written like zero with a sign.
-/

namespace Rebuild.SourceMap.Vlq

/-- The number in which the lowest bit is the sign and the others are the magnitude. -/
def fold (value : Int64) : Nat :=
  let n := value.toInt
  (2 * n.natAbs + if n < 0 then 1 else 0) % UInt64.size

/-- The signed number that a folded one stands for. -/
def unfold (n : Nat) : Int64 :=
  if n % 2 = 1 then Int64.ofInt (-(n / 2 : Nat)) else Int64.ofInt (n / 2 : Nat)

/-- The base-32 digits of a number, the lowest first; all but the last are raised by 32. -/
def encodeNat (n : Nat) : List Char :=
  if n < 32 then [Text.Base64.digit n]
  else Text.Base64.digit (n % 32 + 32) :: encodeNat (n / 32)
termination_by n

/-- The text of a number. -/
def encode (value : Int64) : List Char := encodeNat (fold value)

/-- The texts of numbers, one after the other. -/
def encodeAll (values : List Int64) : List Char := values.flatMap encode

/-- The most digits that a number may have. -/
def maxDigits : Nat := 13

/-- The numbers in a text, where `count` digits of the first were read already and give `sum`. -/
def decodeFrom (sum count : Nat) : List Char → Except Fault (List Int64)
  | [] => if count = 0 then .ok [] else .error .truncatedVlq
  | c :: cs =>
    match Text.Base64.value? c with
    | none => .error (.invalidDigit c)
    | some digit =>
      let sum := sum + digit % 32 * Nat.pow 32 count
      if digit < 32 then
        match decodeFrom 0 0 cs with
        | .ok values => .ok (unfold (sum % UInt64.size) :: values)
        | .error fault => .error fault
      else if count + 1 < maxDigits then decodeFrom sum (count + 1) cs
      else .error .truncatedVlq

/-- The numbers in a text. -/
def decode (cs : List Char) : Except Fault (List Int64) := decodeFrom 0 0 cs

end Rebuild.SourceMap.Vlq
