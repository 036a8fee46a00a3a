import Rebuild.Text.Basic
import Rebuild.Text.Word

/-!
# Patterns of text

Regular expressions with one marked part, and how they are found in a text.  Repetition is of single
characters only, which is all that the rest of the library needs.

Of all ways in which a pattern matches at a place, the first counts, in the order of preference that
the pattern gives: an alternative before the next, one more of a greedy repetition before one fewer.
A text is searched from the left, and the search goes on after a match where that ended.

* `Pattern.first?` is the first way to match that satisfies what comes after it.
* `Pattern.findAll` lists the marked parts of all matches.
-/

namespace Rebuild.Text

/-- A place in a text: how many characters are before it, the last of them, and what follows. -/
structure Place where
  position : Nat
  last : Option Char
  rest : List Char
  deriving Repr

/-- What was marked by a match. -/
abbrev Mark := Option (List Char)

/-- A pattern of text. -/
inductive Pattern where
  /-- Exactly these characters. -/
  | exactly (text : List Char)
  /-- One character of a class. -/
  | one (member : Char → Bool)
  /-- At least so many characters of a class, and of those as many or as few as possible. -/
  | many (member : Char → Bool) (least : Nat) (greedy : Bool)
  /-- The pattern, or nothing. -/
  | optional (p : Pattern)
  /-- The first pattern, or the second one. -/
  | either (p q : Pattern)
  /-- One pattern after the other. -/
  | both (p q : Pattern)
  /-- The pattern, and what it matches is marked. -/
  | marked (p : Pattern)
  /-- The beginning of a line. -/
  | lineStart
  /-- Between a character of words and something else. -/
  | wordEdge

namespace Place

/-- The beginning of a text. -/
def start (text : List Char) : Place := ⟨0, none, text⟩

/-- The place after the text `word`, if that follows. -/
def afterText? : List Char → Place → Option Place
  | [], at_ => some at_
  | _ :: _, ⟨_, _, []⟩ => none
  | w :: ws, ⟨n, _, c :: cs⟩ => if w = c then afterText? ws ⟨n + 1, some c, cs⟩ else none

/-- The place after one character of the class, if one follows. -/
def afterOne? (member : Char → Bool) : Place → Option Place
  | ⟨_, _, []⟩ => none
  | ⟨n, _, c :: cs⟩ => if member c then some ⟨n + 1, some c, cs⟩ else none

/-- The places reached over characters of the class, the furthest first, before those found
already. -/
def stopsWith (member : Char → Bool) (position : Nat) (last : Option Char) :
    List Char → List Place → List Place
  | [], found => ⟨position, last, []⟩ :: found
  | c :: cs, found =>
    let found := ⟨position, last, c :: cs⟩ :: found
    if member c then stopsWith member (position + 1) (some c) cs found else found

/-- The places reached over at least `least` characters of the class, the furthest first. -/
def stops (member : Char → Bool) (least : Nat) (at_ : Place) : List Place :=
  (stopsWith member at_.position at_.last at_.rest []).filter
    fun stop => at_.position + least ≤ stop.position

/-- The text between two places. -/
def textTo (at_ stop : Place) : List Char := at_.rest.take (stop.position - at_.position)

/-- A line begins here. -/
def opensLine (at_ : Place) : Bool :=
  match at_.last with
  | none => true
  | some c => c == '\n'

/-- A word begins or ends here. -/
def isWordEdge (at_ : Place) : Bool :=
  (at_.last.any isWord) != (at_.rest.head?.any isWord)

end Place

namespace Pattern

/-- One pattern after the other, for any number of patterns. -/
def sequence : List Pattern → Pattern
  | [] => exactly []
  | [p] => p
  | p :: ps => both p (sequence ps)

/-- The first way to match that `andThen` accepts, which is given the place after the match and what
was marked. -/
def first? {α : Type} : Pattern → Place → Mark → (Place → Mark → Option α) → Option α
  | exactly text, x, mark, andThen => (x.afterText? text).bind (andThen · mark)
  | one member, x, mark, andThen => (x.afterOne? member).bind (andThen · mark)
  | many member least greedy, x, mark, andThen =>
    let stops := x.stops member least
    (if greedy then stops else stops.reverse).findSome? (andThen · mark)
  | optional p, x, mark, andThen =>
    match first? p x mark andThen with
    | some found => some found
    | none => andThen x mark
  | either p q, x, mark, andThen =>
    match first? p x mark andThen with
    | some found => some found
    | none => first? q x mark andThen
  | both p q, x, mark, andThen =>
    first? p x mark fun y mark => first? q y mark andThen
  | marked p, x, mark, andThen => first? p x mark fun y _ => andThen y (some (x.textTo y))
  | lineStart, x, mark, andThen => if x.opensLine then andThen x mark else none
  | wordEdge, x, mark, andThen => if x.isWordEdge then andThen x mark else none

/-- The place after the match here, and what was marked. -/
def matchAt? (p : Pattern) (x : Place) : Option (Place × Mark) :=
  first? p x none fun y mark => some (y, mark)

/-- The marked parts of the matches at or after `resume`, the latest first, before those found
already. -/
def findFrom (p : Pattern) (resume position : Nat) (last : Option Char) :
    List Char → List Mark → List Mark
  | [], found =>
    if position < resume then found
    else match p.matchAt? ⟨position, last, []⟩ with
      | some (_, mark) => mark :: found
      | none => found
  | c :: cs, found =>
    if position < resume then findFrom p resume (position + 1) (some c) cs found
    else match p.matchAt? ⟨position, last, c :: cs⟩ with
      | some (y, mark) => findFrom p y.position (position + 1) (some c) cs (mark :: found)
      | none => findFrom p resume (position + 1) (some c) cs found

/-- The marked parts of all matches in a text, from the left. -/
def findAll (p : Pattern) (text : List Char) : List String :=
  (findFrom p 0 0 none text []).reverse.filterMap fun mark => mark.map String.ofList

end Pattern
end Rebuild.Text
