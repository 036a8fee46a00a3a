import Rebuild.Json.Reader
import Rebuild.Text.Basic
import Rebuild.Text.Hex
import Rebuild.Toml.Basic

/-!
# Reading TOML

The grammar of the format for the values of `Toml`.  A header names one table: headers with dots and
lists of tables have no place in a configuration.

Every reader takes the text from its first character on, and gives what it read and the rest.
-/

namespace Rebuild.Toml

/-! ## Blanks and comments -/

/-- A blank inside a line. -/
def isBlank (c : Char) : Bool := c == ' ' || c == '\t'

/-- A character that may stand in a comment or a string: no control character but the tab. -/
def isPrintable (c : Char) : Bool := c == '\t' || (0x20 ≤ c.toNat && c.toNat != 0x7F)

/-- The text without the blanks at its front. -/
def skipBlanks (cs : List Char) : List Char := cs.dropWhile isBlank

/-- What follows blanks, line ends and comments. -/
def skipGaps (inComment : Bool) : List Char → Option (List Char)
  | [] => some []
  | '\n' :: cs => skipGaps false cs
  | '\r' :: '\n' :: cs => skipGaps false cs
  | c :: cs =>
    if inComment then (if isPrintable c then skipGaps true cs else none)
    else if isBlank c then skipGaps false cs
    else if c = '#' then skipGaps true cs
    else some (c :: cs)

/-- What follows the end of a line, before which only blanks and a comment may stand. -/
def endLine (cs : List Char) : Option (List Char) :=
  let rest := match skipBlanks cs with
    | '#' :: r => r.dropWhile isPrintable
    | r => r
  match rest with
  | [] => some []
  | '\n' :: r => some r
  | '\r' :: '\n' :: r => some r
  | _ => none

/-! ## Strings -/

/-- The character that a letter after a backslash stands for. -/
def shortEscape? (c : Char) : Option Char :=
  if c = '/' then none else Json.shortEscape? c

/-- The character of a number, if it has one. -/
def character? (n : Nat) : Option Char := if n.isValidChar then some (Char.ofNat n) else none

/-- A string in double quotes, after its first characters `done` (in reverse). -/
def readBasic : List Char → List Char → Option (String × List Char)
  | [], _ => none
  | '"' :: cs, done => some (String.ofList done.reverse, cs)
  | '\\' :: 'u' :: a :: b :: c :: d :: cs, done => do
    readBasic cs ((← character? (← Json.hex4? a b c d)) :: done)
  | '\\' :: 'U' :: a :: b :: c :: d :: e :: f :: g :: h :: cs, done => do
    let high ← Json.hex4? a b c d
    let low ← Json.hex4? e f g h
    readBasic cs ((← character? (high * 0x10000 + low)) :: done)
  | '\\' :: c :: cs, done => do readBasic cs ((← shortEscape? c) :: done)
  | c :: cs, done => if isPrintable c then readBasic cs (c :: done) else none

/-- A backslash here ends its line. -/
def endsLine (cs : List Char) : Bool :=
  match skipBlanks cs with
  | '\n' :: _ => true
  | '\r' :: '\n' :: _ => true
  | _ => false

/-- A string in three double quotes.  After a backslash that ends its line, blanks and line ends are
left out (`skipping`). -/
def readBasicBlock (skipping : Bool) : List Char → List Char → Option (String × List Char)
  | [], _ => none
  | '"' :: '"' :: '"' :: '"' :: '"' :: cs, done =>
    some (String.ofList ('"' :: '"' :: done).reverse, cs)
  | '"' :: '"' :: '"' :: '"' :: cs, done => some (String.ofList ('"' :: done).reverse, cs)
  | '"' :: '"' :: '"' :: cs, done => some (String.ofList done.reverse, cs)
  | '\r' :: '\n' :: cs, done => readBasicBlock skipping cs (if skipping then done else '\n' :: done)
  | '\n' :: cs, done => readBasicBlock skipping cs (if skipping then done else '\n' :: done)
  | '\\' :: 'u' :: a :: b :: c :: d :: cs, done => do
    readBasicBlock false cs ((← character? (← Json.hex4? a b c d)) :: done)
  | '\\' :: 'U' :: a :: b :: c :: d :: e :: f :: g :: h :: cs, done => do
    let high ← Json.hex4? a b c d
    let low ← Json.hex4? e f g h
    readBasicBlock false cs ((← character? (high * 0x10000 + low)) :: done)
  | '\\' :: c :: cs, done =>
    if endsLine (c :: cs) then readBasicBlock true cs done
    else do readBasicBlock false cs ((← shortEscape? c) :: done)
  | c :: cs, done =>
    if skipping && isBlank c then readBasicBlock true cs done
    else if isPrintable c then readBasicBlock false cs (c :: done)
    else none

/-- A string in single quotes. -/
def readLiteral (cs : List Char) : Option (String × List Char) :=
  let isBody (c : Char) : Bool := isPrintable c && c != '\''
  match cs.dropWhile isBody with
  | '\'' :: rest => some (String.ofList (cs.takeWhile isBody), rest)
  | _ => none

/-- A string in three single quotes. -/
def readLiteralBlock : List Char → List Char → Option (String × List Char)
  | [], _ => none
  | '\'' :: '\'' :: '\'' :: '\'' :: '\'' :: cs, done =>
    some (String.ofList ('\'' :: '\'' :: done).reverse, cs)
  | '\'' :: '\'' :: '\'' :: '\'' :: cs, done => some (String.ofList ('\'' :: done).reverse, cs)
  | '\'' :: '\'' :: '\'' :: cs, done => some (String.ofList done.reverse, cs)
  | '\r' :: '\n' :: cs, done => readLiteralBlock cs ('\n' :: done)
  | '\n' :: cs, done => readLiteralBlock cs ('\n' :: done)
  | c :: cs, done => if isPrintable c then readLiteralBlock cs (c :: done) else none

/-- The text without a line end at its front. -/
def skipLineEnd : List Char → List Char
  | '\n' :: cs => cs
  | '\r' :: '\n' :: cs => cs
  | cs => cs

/-! ## Integers -/

/-- The value of digits in a base, where a low line may stand between two digits. -/
def digitsValue? (base : Nat) (digits : List Char) : Option Nat :=
  let groups := Text.split '_' digits
  if groups.any List.isEmpty then none
  else
    groups.flatten.foldlM (fun n c => do
      let d ← Text.Hex.value? c
      if d < base then some (n * base + d) else none) 0

/-- A character of an integer without its sign. -/
def isDigitPart (c : Char) : Bool := c.isAlphanum || c == '_'

/-- The value of an integer without its sign; a decimal one has no zero in front. -/
def unsigned? : List Char → Option Nat
  | '0' :: 'x' :: digits => digitsValue? 16 digits
  | '0' :: 'o' :: digits => digitsValue? 8 digits
  | '0' :: 'b' :: digits => digitsValue? 2 digits
  | ['0'] => some 0
  | '0' :: _ => none
  | digits => digitsValue? 10 digits

/-- An integer of 64 bits. -/
def readInteger (cs : List Char) : Option (Int × List Char) := do
  let (sign, digits) : Option Char × List Char :=
    match cs with
    | '+' :: r => (some '+', r)
    | '-' :: r => (some '-', r)
    | r => (none, r)
  let token := digits.takeWhile isDigitPart
  if sign.isSome && (token.drop 1).head?.any Char.isAlpha then none
  let n ← unsigned? token
  let value : Int := if sign = some '-' then -n else n
  if Int64.minValue.toInt ≤ value ∧ value ≤ Int64.maxValue.toInt then
    some (value, digits.dropWhile isDigitPart)
  else none

/-! ## Keys -/

/-- A character of a key without quotes. -/
def isBareKey (c : Char) : Bool := c.isAlphanum || c == '_' || c == '-'

/-- One part of a key. -/
def readName : List Char → Option (String × List Char)
  | '"' :: cs => readBasic cs []
  | '\'' :: cs => readLiteral cs
  | cs =>
    let name := cs.takeWhile isBareKey
    if name.isEmpty then none else some (String.ofList name, cs.dropWhile isBareKey)

/-- A key, which has parts with dots between them, and the blanks after it.  A key has at most as many
parts as `fuel`. -/
def readKey : Nat → List Char → Option (List String × List Char)
  | 0, _ => none
  | fuel + 1, cs => do
    let (name, rest) ← readName (skipBlanks cs)
    match skipBlanks rest with
    | '.' :: rest =>
      let (names, rest) ← readKey fuel rest
      return (name :: names, rest)
    | rest => return ([name], rest)

/-! ## Values -/

mutual

/-- A value that is nested at most so deep and long. -/
def readValue : Nat → List Char → Option (Toml × List Char)
  | 0, _ => none
  | fuel + 1, cs =>
    match cs with
    | '"' :: '"' :: '"' :: cs =>
      (readBasicBlock false (skipLineEnd cs) []).map fun (s, r) => (.string s, r)
    | '"' :: cs => (readBasic cs []).map fun (s, r) => (.string s, r)
    | '\'' :: '\'' :: '\'' :: cs =>
      (readLiteralBlock (skipLineEnd cs) []).map fun (s, r) => (.string s, r)
    | '\'' :: cs => (readLiteral cs).map fun (s, r) => (.string s, r)
    | '[' :: cs => (readItems fuel cs).map fun (items, r) => (.array items, r)
    | '\x7b' :: cs =>
      match skipBlanks cs with
      | '\x7d' :: rest => some (.table false [], rest)
      | _ => (readMembers fuel cs []).map fun (members, r) => (.table false members, r)
    | cs => (readInteger cs).map fun (n, r) => (.integer n, r)

/-- The items of an array up to its end. -/
def readItems : Nat → List Char → Option (List Toml × List Char)
  | 0, _ => none
  | fuel + 1, cs => do
    match ← skipGaps false cs with
    | ']' :: rest => return ([], rest)
    | cs =>
      let (item, rest) ← readValue fuel cs
      match ← skipGaps false rest with
      | ']' :: rest => return ([item], rest)
      | ',' :: rest =>
        let (items, rest) ← readItems fuel rest
        return (item :: items, rest)
      | _ => none

/-- The members of a table on one line up to its end, after those in `done`. -/
def readMembers : Nat → List Char → Members → Option (Members × List Char)
  | 0, _, _ => none
  | fuel + 1, cs, done => do
    let (names, rest) ← readKey fuel cs
    match rest with
    | '=' :: rest =>
      let (value, rest) ← readValue fuel (skipBlanks rest)
      let done ← assign names value done
      match skipBlanks rest with
      | '\x7d' :: rest => return (done, rest)
      | ',' :: rest => readMembers fuel rest done
      | _ => none
    | _ => none

end

/-! ## Documents -/

/-- What has been read of a document: the members before the first header and the tables that are
complete, and the table under the last header. -/
structure Progress where
  root : Members := []
  last? : Option (String × Members) := none

namespace Progress

/-- All members, with the last table complete. -/
def complete (p : Progress) : Members :=
  match p.last? with
  | none => p.root
  | some (name, members) => p.root ++ [(name, .table false members)]

/-- The progress after a header. -/
def openTable? (p : Progress) (name : String) : Option Progress :=
  if (p.complete.lookup name).isSome then none else some ⟨p.complete, some (name, [])⟩

/-- The progress after a member. -/
def assign? (p : Progress) (names : List String) (value : Toml) : Option Progress :=
  match p.last? with
  | none => (assign names value p.root).map fun root => { p with root }
  | some (name, members) =>
    (assign names value members).map fun members => { p with last? := some (name, members) }

end Progress

/-- The lines of a document; there are at most as many as `fuel`. -/
def readLines : Nat → List Char → Progress → Option Members
  | 0, _, _ => none
  | fuel + 1, cs, progress => do
    match ← skipGaps false cs with
    | [] => return progress.complete
    | '[' :: cs =>
      match ← readKey (cs.length + 1) cs with
      | ([name], ']' :: rest) => readLines fuel (← endLine rest) (← progress.openTable? name)
      | _ => none
    | cs =>
      match ← readKey (cs.length + 1) cs with
      | (names, '=' :: rest) =>
        let (value, rest) ← readValue (cs.length + 1) (skipBlanks rest)
        readLines fuel (← endLine rest) (← progress.assign? names value)
      | _ => none

/-- The members of a document, which may begin with a byte order mark. -/
def parse? (text : String) : Option Members :=
  let cs := match text.toList with
    | c :: cs => if c.toNat = 0xFEFF then cs else c :: cs
    | [] => []
  readLines (cs.length + 1) cs {}

end Rebuild.Toml
