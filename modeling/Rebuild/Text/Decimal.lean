/-!
# Decimal text of binary floating point numbers

A finite double is `m · 2 ^ q` with natural `m`, and everything below is computed from the pair in
exact arithmetic.

* **Shortest.**  `Magnitude.shortest` finds the fewest digits that read back as the same double, and
  of those the nearest.
* **Fixed places.**  `Magnitude.rounded` rounds to so many places, a half to the even neighbour.
* **Layout.**  `render` writes shortest digits positionally from `1e-5` up to `1e16` and with an
  exponent outside.
-/

namespace Rebuild.Text.Decimal

/-- The absolute value of a finite double, `mantissa · 2 ^ exponent`. -/
structure Magnitude where
  mantissa : Nat
  exponent : Int
  deriving DecidableEq, Repr

/-- The bit above the fraction of a double, which is not written: `2 ^ 52`. -/
def hiddenBit : Nat := 0x10000000000000

/-- Sign and absolute value of the double with these bits, unless it is infinite or no number. -/
def ofBits? (bits : UInt64) : Option (Bool × Magnitude) :=
  let n : Nat := bits.toNat
  let negative := n / hiddenBit / 2048 == 1
  let biased : Nat := n / hiddenBit % 2048
  let fraction : Nat := n % hiddenBit
  if biased = 2047 then none
  else if biased = 0 then some (negative, ⟨fraction, -1074⟩)
  else some (negative, ⟨hiddenBit + fraction, (biased : Int) - 1075⟩)

namespace Magnitude

/-- `a · 2 ^ e · 10 ^ d` over the common denominator of all such numbers with exponents at least
`-low` and `-deep`. -/
def scaled (a : Nat) (e d : Int) (low deep : Nat) : Nat :=
  a * Nat.pow 2 (e + low).toNat * Nat.pow 10 (d + deep).toNat

/-- The number of digits before the point: the least `k` with `m · 2 ^ q < 10 ^ k`. -/
def digitsBeforePoint (x : Magnitude) : Int :=
  let below (k : Int) : Bool :=
    scaled x.mantissa x.exponent 0 1100 400 < scaled 1 0 k 1100 400
  match (List.range 800).find? fun (i : Nat) => below ((i : Int) - 400) with
  | some i => (i : Int) - 400
  | none => 400

/-- The point `c` of the grid of step `10 ^ d` reads back as `x`: it lies between the midpoints to
the neighbouring doubles, which count only for an even mantissa. -/
def readsBack (x : Magnitude) (c : Nat) (d : Int) : Bool :=
  let m := x.mantissa
  let under := if m = hiddenBit ∧ x.exponent > -1074 then 4 * m - 1 else 4 * m - 2
  let low := scaled under (x.exponent - 2) 0 1100 400
  let high := scaled (4 * m + 2) (x.exponent - 2) 0 1100 400
  let point := scaled c 0 d 1100 400
  if m % 2 = 0 then low ≤ point && point ≤ high else low < point && point < high

/-- The digits, as a number, and the power of ten of the last one, with `n` digits. -/
def withDigits? (x : Magnitude) (k : Int) (n : Nat) : Option (Nat × Int) :=
  let d := k - n
  let unit := scaled 1 0 d 1100 400
  let value := scaled x.mantissa x.exponent 0 1100 400
  let c := value / unit
  let rest := value % unit
  let nearer := if 2 * rest < unit ∨ (2 * rest = unit ∧ c % 2 = 0) then c else c + 1
  let other := if nearer = c then c + 1 else c
  if x.readsBack nearer d then some (nearer, d)
  else if x.readsBack other d then some (other, d)
  else none

/-- The same number with its zeros at the end moved into the power of ten. -/
def withoutZeros (c : Nat) (d : Int) : Nat × Int :=
  if c ≠ 0 ∧ c % 10 = 0 then withoutZeros (c / 10) (d + 1) else (c, d)
termination_by c
decreasing_by omega

/-- The fewest digits that read back, without zeros at the end; seventeen always do. -/
def shortest (x : Magnitude) : Nat × Int :=
  let k := x.digitsBeforePoint
  let found := (List.range 18).findSome? fun n => if n = 0 then none else x.withDigits? k n
  match found with
  | some (c, d) => withoutZeros c d
  | none => (0, 0)

/-- `x` as a multiple of `10 ^ -places`, to the nearest; a half goes to the even neighbour. -/
def rounded (x : Magnitude) (places : Nat) : Nat :=
  let unit := scaled 1 0 (-places) 1100 400
  let value := scaled x.mantissa x.exponent 0 1100 400
  let c := value / unit
  let rest := value % unit
  if 2 * rest < unit ∨ (2 * rest = unit ∧ c % 2 = 0) then c else c + 1

end Magnitude

/-- `n` zeros. -/
def zeros (n : Nat) : String := String.ofList (List.replicate n '0')

/-- Digits with a point: positional when the point falls between five zeros before the first digit
and the sixteenth place, and with an exponent otherwise. -/
def layout (digits : String) (power : Int) : String :=
  let length := digits.length
  let point := power + length
  let cut (n : Nat) : String × String :=
    (String.ofList (digits.toList.take n), String.ofList (digits.toList.drop n))
  if 0 ≤ power ∧ point ≤ 16 then digits ++ zeros power.toNat ++ ".0"
  else if 0 < point ∧ point ≤ 16 then
    let (whole, part) := cut point.toNat
    whole ++ "." ++ part
  else if -5 < point ∧ point ≤ 0 then "0." ++ zeros (-point).toNat ++ digits
  else
    let (whole, part) := cut 1
    whole ++ (if length = 1 then "" else "." ++ part) ++ "e" ++ (point - 1).repr

/-- The shortest text that reads back as the double with these bits; nothing for infinities. -/
def render? (bits : UInt64) : Option String :=
  (ofBits? bits).map fun (negative, x) =>
    let sign := if negative then "-" else ""
    if x.mantissa = 0 then sign ++ "0.0"
    else
      let (digits, power) := x.shortest
      sign ++ layout digits.repr power

/-- A multiple of `10 ^ -places` with its point, which goes with the places. -/
def renderFixed (places n : Nat) : String :=
  let unit := Nat.pow 10 places
  let part := (n % unit).repr
  if places = 0 then n.repr
  else (n / unit).repr ++ "." ++ zeros (places - part.length) ++ part

/-- The double with so many places, for a finite one that is not negative. -/
def toFixed (places : Nat) (x : Float) : String :=
  match ofBits? x.toBits with
  | none => ""
  | some (_, magnitude) => renderFixed places (magnitude.rounded places)

end Rebuild.Text.Decimal
