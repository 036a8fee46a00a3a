import Rebuild.Glob.Basic

/-!
# Reading glob patterns

The text of a pattern is read character by character.  `{` opens a group, `,` ends a branch inside
one, `[` begins a class of characters, and a backslash takes the next character as it is.
-/

namespace Rebuild.Glob

/-- A group that is being read: its finished branches and the tokens of the current one, both in
reverse. -/
structure Frame where
  done : List Pattern := []
  branch : List Token := []
  deriving Inhabited

/-- The groups that are open, the innermost apart. -/
structure Frames where
  top : Frame := {}
  below : List Frame := []

namespace Frames

/-- The token added to the current branch. -/
def push (f : Frames) (token : Token) : Frames :=
  { f with top := { f.top with branch := token :: f.top.branch } }

/-- The last token of the current branch taken away. -/
def drop (f : Frames) : Frames :=
  { f with top := { f.top with branch := f.top.branch.drop 1 } }

/-- All branches of the current group. -/
def branches (f : Frame) : List Pattern := (f.branch.reverse :: f.done).reverse

/-- A group closed, and added to the branch around it. -/
def close? (f : Frames) : Option Frames :=
  match f.below with
  | [] => none
  | outer :: below => some (push ⟨outer, below⟩ (.group (branches f.top)))

/-- The next branch begun. -/
def nextBranch (f : Frames) : Frames :=
  { f with top := { done := f.top.branch.reverse :: f.top.done, branch := [] } }

end Frames

/-- A class that is being read: its ranges in reverse, whether a character stood in it yet, and
whether a dash waits for the upper end of the last range. -/
structure ClassPart where
  negated : Bool
  ranges : List (Char × Char) := []
  isFirst : Bool := true
  inRange : Bool := false

namespace ClassPart

/-- The upper end of the last range. -/
def extend (part : ClassPart) (high : Char) : Except Fault ClassPart :=
  match part.ranges with
  | (low, _) :: ranges =>
    if high < low then .error (.invalidRange low high)
    else .ok { part with ranges := (low, high) :: ranges, inRange := false, isFirst := false }
  | [] => .ok { part with ranges := [(high, high)], inRange := false, isFirst := false }

/-- One character of its own. -/
def add (part : ClassPart) (c : Char) : ClassPart :=
  { part with ranges := (c, c) :: part.ranges, inRange := false, isFirst := false }

/-- The class, where a dash that waits is itself. -/
def token (part : ClassPart) : Token :=
  .class part.negated (if part.inRange then ('-', '-') :: part.ranges else part.ranges).reverse

end ClassPart

/-- The class from its first character on, and the text after it. -/
def readClass (part : ClassPart) : List Char → Except Fault (Token × List Char)
  | [] => .error .unclosedClass
  | c :: cs =>
    if c = ']' ∧ ¬ part.isFirst then .ok (part.token, cs)
    else if c = '-' ∧ ¬ part.isFirst ∧ ¬ part.inRange then
      readClass { part with inRange := true } cs
    else if part.inRange then
      match part.extend c with
      | .ok part => readClass part cs
      | .error fault => .error fault
    else readClass (part.add c) cs

theorem length_readClass {part : ClassPart} {cs rest : List Char} {token : Token}
    (h : readClass part cs = .ok (token, rest)) : rest.length < cs.length := by
  fun_induction readClass part cs <;> grind

/-- A class, which a `!` or `^` negates. -/
def readWholeClass : List Char → Except Fault (Token × List Char)
  | [] => .error .unclosedClass
  | c :: cs =>
    if c = '!' ∨ c = '^' then readClass { negated := true } cs
    else readClass { negated := false } (c :: cs)

theorem length_readWholeClass {cs rest : List Char} {token : Token}
    (h : readWholeClass cs = .ok (token, rest)) : rest.length < cs.length := by
  unfold readWholeClass at h
  split at h
  · simp at h
  · split at h
    · have := length_readClass h
      simp
      omega
    · exact length_readClass h

/-- Two stars that are no component of their own. -/
def pushTwoStars (f : Frames) : Frames := (f.push .anyBytes).push .anyBytes

/-- What two stars mean after the character `last` and before `next`, and whether the slash after
them belongs to them.  After a slash they take its place; inside a group so do they after a comma or
an opening brace that stands for itself. -/
def readTwoStars (f : Frames) (last next : Option Char) : Frames × Bool :=
  let atEnd := next.isNone
  let slashNext := next == some '/'
  let inGroup := !f.below.isEmpty
  let separated :=
    last == some '/' || (inGroup && (last == some ',' || last == some '\x7b'))
  if f.top.branch = [] then
    if atEnd || slashNext then (f.push .anyPrefix, slashNext) else (pushTwoStars f, false)
  else if !separated then (pushTwoStars f, false)
  else
    let branchEnds := inGroup && (next == some ',' || next == some '\x7d')
    if atEnd || branchEnds || slashNext then
      match f.top.branch with
      | .anyPrefix :: _ => (f, slashNext)
      | .inside :: _ => (f, slashNext)
      | _ => (f.drop.push (if slashNext then .between else .inside), slashNext)
    else (pushTwoStars f, false)

/-- The pattern whose tokens so far are in `f`; `last` is the character read before. -/
def readFrom (f : Frames) (last : Option Char) (cs : List Char) : Except Fault Pattern :=
  match cs with
  | [] => if f.below.isEmpty then .ok f.top.branch.reverse else .error .unclosedGroup
  | '*' :: '*' :: rest =>
    match readTwoStars f last rest.head? with
    | (f, true) => readFrom f (some '/') (rest.drop 1)
    | (f, false) => readFrom f (some '*') rest
  | '\\' :: c :: rest => readFrom (f.push (.literal c)) (some c) rest
  | c :: rest =>
    if c = '?' then readFrom (f.push .anyByte) (some c) rest
    else if c = '*' then readFrom (f.push .anyBytes) (some c) rest
    else if c = '\\' then .error .danglingEscape
    else if c = '[' then
      match h : readWholeClass rest with
      | .error fault => .error fault
      | .ok (token, after) =>
        have := length_readWholeClass h
        readFrom (f.push token) (some ']') after
    else if c = '\x7b' then readFrom ⟨{}, f.top :: f.below⟩ (some c) rest
    else if c = '\x7d' then
      match f.close? with
      | none => .error .unopenedGroup
      | some f => readFrom f (some c) rest
    else if c = ',' ∧ ¬ f.below.isEmpty then readFrom f.nextBranch (some c) rest
    else readFrom (f.push (.literal c)) (some c) rest
termination_by cs.length

/-- The pattern that a text writes. -/
def parse (text : String) : Except Fault Pattern := readFrom {} none text.toList

end Rebuild.Glob
