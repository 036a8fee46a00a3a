/-!
# Characters out of bytes

`Utf8.decodeLossy` reads any bytes at all: each longest run that begins a character but does not
finish it, and each byte that begins none, becomes one replacement character.
-/

namespace Rebuild.Text.Utf8

/-- U+FFFD, which stands where no character could be read. -/
def replacement : Char := Char.ofNat 0xFFFD

/-- How many bytes follow the first byte of a character, and the range of the first of them; other
bytes begin no character. -/
def following? (first : Nat) : Option (Nat × Nat × Nat) :=
  if first < 0x80 then some (0, 0, 0)
  else if 0xC2 ≤ first ∧ first ≤ 0xDF then some (1, 0x80, 0xBF)
  else if first = 0xE0 then some (2, 0xA0, 0xBF)
  else if first = 0xED then some (2, 0x80, 0x9F)
  else if 0xE1 ≤ first ∧ first ≤ 0xEF then some (2, 0x80, 0xBF)
  else if first = 0xF0 then some (3, 0x90, 0xBF)
  else if 0xF1 ≤ first ∧ first ≤ 0xF3 then some (3, 0x80, 0xBF)
  else if first = 0xF4 then some (3, 0x80, 0x8F)
  else none

/-- The bits of a first byte that belong to the character, by the number of bytes that follow. -/
def leadBits (first count : Nat) : Nat :=
  match count with
  | 0 => first
  | 1 => first - 0xC0
  | 2 => first - 0xE0
  | _ => first - 0xF0

/-- A character that has been begun: the value so far, the bytes still owed, and the range of the
next one. -/
structure Pending where
  value : Nat
  owed : Nat
  low : Nat
  high : Nat

/-- The state after a byte that stands where a character begins, and the text (in reverse). -/
def start (b : Nat) (done : List Char) : Option Pending × List Char :=
  match following? b with
  | none => (none, replacement :: done)
  | some (0, _, _) => (none, Char.ofNat b :: done)
  | some (count, low, high) => (some ⟨leadBits b count, count, low, high⟩, done)

/-- One byte more.  A byte that cannot continue the pending character ends it with a replacement and
is looked at again as a first byte. -/
def step : Option Pending × List Char → UInt8 → Option Pending × List Char
  | (none, done), b => start b.toNat done
  | (some p, done), b =>
    if p.low ≤ b.toNat ∧ b.toNat ≤ p.high then
      let value := p.value * 64 + (b.toNat - 0x80)
      if p.owed ≤ 1 then (none, Char.ofNat value :: done)
      else (some ⟨value, p.owed - 1, 0x80, 0xBF⟩, done)
    else start b.toNat (replacement :: done)

/-- The text of bytes, with replacement characters for what is no text. -/
def decodeLossy (bytes : List UInt8) : String :=
  match bytes.foldl step (none, []) with
  | (none, done) => String.ofList done.reverse
  | (some _, done) => String.ofList (replacement :: done).reverse

end Rebuild.Text.Utf8
