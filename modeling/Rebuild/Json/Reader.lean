import Rebuild.Json.Basic
import Rebuild.Text.Hex

/-!
# Reading JSON

`Json.parse?` reads exactly one value, with blanks around it and around every token, and nothing
else.  It refuses control characters in strings, halves of surrogate pairs, leading zeros, numbers
beyond the doubles, and values nested deeper than `maxDepth`.

Every step hands on the rest of the text together with the fact that it is shorter (`Rest`), which
is why reading ends.
-/

namespace Rebuild.Json

/-- Something read from the front of `cs`, and what is left of `cs`. -/
abbrev Rest (α : Type) (cs : List Char) := { r : α × List Char // r.2.length < cs.length }

/-- Blanks between tokens. -/
def isBlank (c : Char) : Bool :=
  c == ' ' || c == '\n' || c == '\t' || c == '\r'

/-- The text from its first token on. -/
def skip (cs : List Char) : List Char := cs.dropWhile isBlank

theorem length_skip_le (cs : List Char) : (skip cs).length ≤ cs.length :=
  (List.dropWhile_sublist _).length_le

/-- Values may hold values up to this depth. -/
def maxDepth : Nat := 127

/-! ## Strings -/

/-- The number that four hexadecimal digits stand for. -/
def hex4? (a b c d : Char) : Option Nat := do
  let a ← Text.Hex.value? a
  let b ← Text.Hex.value? b
  let c ← Text.Hex.value? c
  let d ← Text.Hex.value? d
  return ((a * 16 + b) * 16 + c) * 16 + d

/-- The character that a single letter after a backslash stands for. -/
def shortEscape? (c : Char) : Option Char :=
  if c = '"' ∨ c = '\\' ∨ c = '/' then some c
  else if c = 'b' then some (Char.ofNat 8)
  else if c = 'f' then some (Char.ofNat 12)
  else if c = 'n' then some '\n'
  else if c = 'r' then some '\r'
  else if c = 't' then some '\t'
  else none

/-- The characters of a string up to its closing quote, after those in `done` (in reverse). -/
def readString : List Char → List Char → Option (String × List Char)
  | [], _ => none
  | '"' :: cs, done => some (String.ofList done.reverse, cs)
  | '\\' :: 'u' :: a :: b :: c :: d :: '\\' :: 'u' :: e :: f :: g :: h :: cs, done => do
    let first ← hex4? a b c d
    let second ← hex4? e f g h
    if 0xD800 ≤ first ∧ first < 0xDC00 then
      if 0xDC00 ≤ second ∧ second < 0xE000 then
        let code := 0x10000 + (first - 0xD800) * 0x400 + (second - 0xDC00)
        readString cs (Char.ofNat code :: done)
      else none
    else if 0xDC00 ≤ first ∧ first < 0xE000 then none
    else readString ('\\' :: 'u' :: e :: f :: g :: h :: cs) (Char.ofNat first :: done)
  | '\\' :: 'u' :: a :: b :: c :: d :: cs, done => do
    let code ← hex4? a b c d
    if 0xD800 ≤ code ∧ code < 0xE000 then none
    else readString cs (Char.ofNat code :: done)
  | '\\' :: c :: cs, done => do
    let meant ← shortEscape? c
    readString cs (meant :: done)
  | c :: cs, done => if c.toNat < 32 then none else readString cs (c :: done)

theorem length_readString {cs done : List Char} {s : String} {rest : List Char}
    (h : readString cs done = some (s, rest)) : rest.length < cs.length := by
  fun_induction readString cs done <;> simp_all [Option.bind_eq_some_iff] <;> grind

/-! ## Numbers -/

/-- The decimal digits at the front of a text, as numbers, and what follows them. -/
def takeDigits (cs : List Char) : List Nat × List Char :=
  ((cs.takeWhile Char.isDigit).map fun c => c.toNat - 48, cs.dropWhile Char.isDigit)

/-- The number that digits write in base ten. -/
def digitsValue (ds : List Nat) : Nat := ds.foldl (fun n d => 10 * n + d) 0

/-- The whole part: digits are taken while the number fits 64 bits, and those after that only count
as places. -/
def takeWhole (ds : List Nat) : Nat × Int :=
  let (n, places, _) := ds.foldl
    (fun (n, places, full) d =>
      if full || 10 * n + d ≥ UInt64.size then (n, places + 1, true) else (10 * n + d, places, false))
    ((0, 0, false) : Nat × Int × Bool)
  (n, places)

/-- The digits after the point, each a place down, while the number fits 64 bits. -/
def takeFraction (start : Nat) (ds : List Nat) : Nat × Int :=
  let (n, places, _) := ds.foldl
    (fun (n, places, full) d =>
      if full || 10 * n + d ≥ UInt64.size then (n, places, true) else (10 * n + d, places - 1, false))
    ((start, 0, false) : Nat × Int × Bool)
  (n, places)

/-- `significand · 10 ^ power` as a double, by at most two divisions or one multiplication; too
large a number is refused. -/
def scale? (significand : Nat) (power : Int) : Option Float :=
  let f := Float.ofNat significand
  let ten (n : Nat) : Float := Float.ofScientific 1 false n
  if significand = 0 then some 0.0
  else if power > 308 then none
  else if power ≥ 0 then
    let g := f * ten power.toNat
    if g.isInf then none else some g
  else if power ≥ -308 then some (f / ten (-power).toNat)
  else if power ≥ -616 then some (f / ten 308 / ten (-(power + 308)).toNat)
  else some 0.0

/-- The exponent after a number, and what follows it; without an `e` it is zero. -/
def readExponent : List Char → Option (Int × List Char)
  | c :: cs =>
    if c = 'e' ∨ c = 'E' then
      let (negative, after) : Bool × List Char :=
        match cs with
        | '+' :: r => (false, r)
        | '-' :: r => (true, r)
        | _ => (false, cs)
      match takeDigits after with
      | ([], _) => none
      | (ds, rest) =>
        let n : Int := digitsValue ds
        some (if negative then -n else n, rest)
    else some (0, c :: cs)
  | [] => some (0, [])

/-- The digits of the whole part: a zero stands alone. -/
def readWhole (cs : List Char) : Option (List Nat × List Char) :=
  match takeDigits cs with
  | ([], _) => none
  | (0 :: _ :: _, _) => none
  | (ds, rest) => some (ds, rest)

/-- The digits after a point, if there is a point; then there is at least one. -/
def readFraction : List Char → Option (Option (List Nat) × List Char)
  | '.' :: cs =>
    match takeDigits cs with
    | ([], _) => none
    | (ds, rest) => some (some ds, rest)
  | cs => some (none, cs)

/-- A number without its sign. -/
def readMagnitude (negative : Bool) (cs : List Char) : Option (JsonNumber × List Char) := do
  let (whole, afterWhole) ← readWhole cs
  let (fraction, afterFraction) ← readFraction afterWhole
  let (exponent, rest) ← readExponent afterFraction
  let value := digitsValue whole
  let isPlain := fraction.isNone && afterFraction.length == rest.length
  if isPlain && !negative && value < UInt64.size then
    return (.integer value, rest)
  else if isPlain && negative && 0 < value && 2 * value ≤ UInt64.size then
    return (.integer (-value), rest)
  else
    let (n, up) := takeWhole whole
    let (n, down) := takeFraction n (fraction.getD [])
    let f ← scale? n (up + down + exponent)
    return (.float (if negative then (-f).toBits else f.toBits), rest)

/-- A number, if the text begins with one. -/
def readNumber : List Char → Option (JsonNumber × List Char)
  | '-' :: cs => readMagnitude true cs
  | cs => readMagnitude false cs

/-! ## Values -/

/-- A value that holds no other value: a word, a string or a number. -/
def readScalar (cs : List Char) : Option (Json × List Char) :=
  match cs with
  | 'n' :: 'u' :: 'l' :: 'l' :: rest => some (.null, rest)
  | 't' :: 'r' :: 'u' :: 'e' :: rest => some (.bool true, rest)
  | 'f' :: 'a' :: 'l' :: 's' :: 'e' :: rest => some (.bool false, rest)
  | '"' :: rest => (readString rest []).map fun (s, rest) => (.string s, rest)
  | _ => (readNumber cs).map fun (n, rest) => (.number n, rest)

/-- The reading, if it left less than it was given. -/
def shorter? {α : Type} (cs : List Char) (result : Option (α × List Char)) : Option (Rest α cs) :=
  match result with
  | some r => if h : r.2.length < cs.length then some ⟨r, h⟩ else none
  | none => none

/-- A reading of the end of `cs` is a reading of `cs`. -/
def Rest.widen {α : Type} {cs ds : List Char} (h : ds.length ≤ cs.length) (r : Rest α ds) :
    Rest α cs :=
  ⟨r.1, Nat.lt_of_lt_of_le r.2 h⟩

/-- The rest after a comma or the closing bracket, and which of them it was. -/
def readSeparator (close : Char) (cs : List Char) : Option (Rest Bool cs) :=
  match h : skip cs with
  | c :: rest =>
    have shorter : rest.length < cs.length := by
      have := length_skip_le cs
      rw [h] at this
      simp at this
      omega
    if c = ',' then some ⟨(true, rest), shorter⟩
    else if c = close then some ⟨(false, rest), shorter⟩
    else none
  | [] => none

/-- A quoted name and the colon after it. -/
def readName (cs : List Char) : Option (Rest String cs) :=
  match h : skip cs with
  | '"' :: rest =>
    match hs : readString rest [] with
    | some (name, after) =>
      match hc : skip after with
      | ':' :: final =>
        some ⟨(name, final), by
          have h₁ := length_skip_le cs
          have h₂ := length_readString hs
          have h₃ := length_skip_le after
          rw [h] at h₁
          rw [hc] at h₃
          simp at h₁ h₃
          show final.length < cs.length
          omega⟩
      | _ => none
    | none => none
  | _ => none

mutual

/-- The value at the front of a text, nested at most `depth` deep. -/
def readValue (depth : Nat) (cs : List Char) : Option (Rest Json cs) :=
  match h : skip cs with
  | '[' :: rest =>
    have shorter : rest.length < cs.length := by
      have := length_skip_le cs
      rw [h] at this
      simp at this
      omega
    match depth with
    | 0 => none
    | depth + 1 =>
      match readSeparator ']' rest with
      | some ⟨(false, after), ha⟩ => some ⟨(.array [], after), Nat.lt_trans ha shorter⟩
      | some ⟨(true, _), _⟩ => none
      | none =>
        match readItems depth rest with
        | some ⟨(items, after), ha⟩ => some ⟨(.array items, after), Nat.lt_trans ha shorter⟩
        | none => none
  | '{' :: rest =>
    have shorter : rest.length < cs.length := by
      have := length_skip_le cs
      rw [h] at this
      simp at this
      omega
    match depth with
    | 0 => none
    | depth + 1 =>
      match readSeparator '}' rest with
      | some ⟨(false, after), ha⟩ => some ⟨(.object [], after), Nat.lt_trans ha shorter⟩
      | some ⟨(true, _), _⟩ => none
      | none =>
        match readMembers depth rest with
        | some ⟨(members, after), ha⟩ => some ⟨(.object members, after), Nat.lt_trans ha shorter⟩
        | none => none
  | front => (shorter? front (readScalar front)).map (Rest.widen (h ▸ length_skip_le cs))
termination_by (cs.length, 0)

/-- The items up to the closing bracket; there is at least one. -/
def readItems (depth : Nat) (cs : List Char) : Option (Rest (List Json) cs) :=
  match readValue depth cs with
  | none => none
  | some ⟨(item, afterItem), hi⟩ =>
    match readSeparator ']' afterItem with
    | none => none
    | some ⟨(false, rest), hr⟩ => some ⟨([item], rest), Nat.lt_trans hr hi⟩
    | some ⟨(true, rest), hr⟩ =>
      have shorter : rest.length < cs.length := Nat.lt_trans hr hi
      match readItems depth rest with
      | none => none
      | some ⟨(items, after), ha⟩ =>
        some ⟨(item :: items, after), Nat.lt_trans ha shorter⟩
termination_by (cs.length, 1)

/-- The members up to the closing brace; there is at least one. -/
def readMembers (depth : Nat) (cs : List Char) : Option (Rest (List (String × Json)) cs) :=
  match readName cs with
  | none => none
  | some ⟨(name, afterName), hn⟩ =>
    match readValue depth afterName with
    | none => none
    | some ⟨(value, afterValue), hv⟩ =>
      match readSeparator '}' afterValue with
      | none => none
      | some ⟨(false, rest), hr⟩ =>
        some ⟨([(name, value)], rest), Nat.lt_trans hr (Nat.lt_trans hv hn)⟩
      | some ⟨(true, rest), hr⟩ =>
        have shorter : rest.length < cs.length := Nat.lt_trans hr (Nat.lt_trans hv hn)
        match readMembers depth rest with
        | none => none
        | some ⟨(members, after), ha⟩ =>
          some ⟨((name, value) :: members, after), Nat.lt_trans ha shorter⟩
termination_by (cs.length, 1)

end

/-- The one value that a text writes. -/
def parse? (text : String) : Option Json :=
  match readValue maxDepth text.toList with
  | some ⟨(value, rest), _⟩ => if skip rest = [] then some value else none
  | none => none

end Rebuild.Json
