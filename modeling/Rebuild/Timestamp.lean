import Rebuild.Text.Basic

/-!
# Moments

A moment is kept as its text, year first.  `Timestamp.parse?` accepts a date and a time of day that
exist, a fraction of a second, and an offset from universal time; blanks may stand before a number.
`Timestamp.ofUnix` writes the moment that a clock shows.
-/

namespace Rebuild

/-- A moment, in words such as `2024-01-02T03:04:05Z`. -/
structure Timestamp where
  text : String
  deriving DecidableEq, Repr, Inhabited

namespace Timestamp

/-- The number of up to `width` digits at the front, after blanks. -/
def readNumber (width : Nat) (cs : List Char) : Option (Nat × List Char) :=
  let cs := cs.dropWhile Text.isBlank
  let digits := (cs.take width).takeWhile Char.isDigit
  if digits = [] then none
  else some (digits.foldl (fun n d => 10 * n + (d.toNat - 48)) 0, cs.drop digits.length)

/-- What follows a character, after blanks. -/
def readMark (c : Char) (cs : List Char) : Option (List Char) :=
  match cs.dropWhile Text.isBlank with
  | d :: rest => if d = c then some rest else none
  | [] => none

/-- The days of a month. -/
def daysIn (year month : Nat) : Nat :=
  if month = 2 then
    if year % 4 = 0 ∧ (year % 100 ≠ 0 ∨ year % 400 = 0) then 29 else 28
  else if month = 4 ∨ month = 6 ∨ month = 9 ∨ month = 11 then 30
  else 31

/-- What follows a date. -/
def readDate (cs : List Char) : Option (List Char) := do
  let (year, cs) ← readNumber 4 cs
  let cs ← readMark '-' cs
  let (month, cs) ← readNumber 2 cs
  let cs ← readMark '-' cs
  let (day, cs) ← readNumber 2 cs
  if 1 ≤ month ∧ month ≤ 12 ∧ 1 ≤ day ∧ day ≤ daysIn year month then some cs else none

/-- What follows a fraction of a second, if there is one. -/
def readFraction : List Char → Option (List Char)
  | '.' :: cs => if (cs.takeWhile Char.isDigit) = [] then none else some (cs.dropWhile Char.isDigit)
  | cs => some cs

/-- What follows a time of day. -/
def readTime (cs : List Char) : Option (List Char) := do
  let (hour, cs) ← readNumber 2 cs
  let cs ← readMark ':' cs
  let (minute, cs) ← readNumber 2 cs
  let cs ← readMark ':' cs
  let (second, cs) ← readNumber 2 cs
  if hour < 24 ∧ minute < 60 ∧ second ≤ 60 then readFraction cs else none

/-- What follows an offset of hours and minutes. -/
def readHours (cs : List Char) : Option (List Char) :=
  match cs with
  | a :: b :: rest =>
    if a.isDigit ∧ b.isDigit then
      match rest.dropWhile fun c => c == ':' || Text.isBlank c with
      | c :: d :: rest => if '0' ≤ c ∧ c ≤ '5' ∧ d.isDigit then some rest else none
      | _ => none
    else none
  | _ => none

/-- What follows an offset. -/
def readOffset (cs : List Char) : Option (List Char) :=
  match cs.dropWhile Text.isBlank with
  | 'U' :: 'T' :: 'C' :: rest => some rest
  | c :: rest =>
    if c = 'Z' ∨ c = 'z' then some rest
    else if c = '+' ∨ c = '-' then readHours rest
    else none
  | [] => none

/-- The moment that a text writes. -/
def parse? (text : String) : Option Timestamp := do
  let cs ← readDate text.toList
  match cs with
  | c :: cs =>
    if c = 'T' ∨ c = 't' ∨ c = ' ' then
      let cs ← readTime cs
      let cs ← readOffset cs
      if cs.all Text.isBlank then some ⟨text⟩ else none
    else none
  | [] => none

/-! ## Clocks -/

/-- Year, month and day of the day with a number, where day 0 is the first of March of the year 0. -/
def civil (day : Nat) : Nat × Nat × Nat :=
  let era := day / 146097
  let ofEra := day % 146097
  let yearOfEra := (ofEra - ofEra / 1460 + ofEra / 36524 - ofEra / 146096) / 365
  let ofYear := ofEra - (365 * yearOfEra + yearOfEra / 4 - yearOfEra / 100)
  let march := (5 * ofYear + 2) / 153
  let month := if march < 10 then march + 3 else march - 9
  let year := era * 400 + yearOfEra + if month ≤ 2 then 1 else 0
  (year, month, ofYear - (153 * march + 2) / 5 + 1)

/-- A number with zeros before it. -/
def padded (width n : Nat) : String :=
  String.ofList (List.replicate (width - n.repr.length) '0') ++ n.repr

/-- The moment so many seconds and billionths after the start of 1970. -/
def ofUnix (seconds nanos : Nat) : Timestamp :=
  let (year, month, day) := civil (seconds / 86400 + 719468)
  let time := seconds % 86400
  let fraction := if nanos = 0 then "" else "." ++ padded 9 nanos
  ⟨padded 4 year ++ "-" ++ padded 2 month ++ "-" ++ padded 2 day ++ "T"
    ++ padded 2 (time / 3600) ++ ":" ++ padded 2 (time / 60 % 60) ++ ":" ++ padded 2 (time % 60)
    ++ fraction ++ "Z"⟩

end Timestamp
end Rebuild
