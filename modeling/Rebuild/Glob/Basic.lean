/-!
# Glob patterns

A pattern is a list of tokens, and matching looks at the bytes of a whole path: `*` stands for any
bytes, slashes included, and `?` for exactly one byte.  A component `**` stands for any directories,
and what that means depends on where it stands:

* at the front (`anyPrefix`) for nothing, for a slash, or for anything that ends in a slash;
* at the end (`inside`) for a slash and anything after it;
* between two slashes (`between`) for one slash, or for anything between two.
-/

namespace Rebuild.Glob

/-- Why a text is no pattern. -/
inductive Fault where
  | unclosedClass
  | invalidRange (low high : Char)
  | unclosedGroup
  | unopenedGroup
  | danglingEscape
  deriving DecidableEq, Repr

/-- The wording of a fault. -/
def Fault.message : Fault → String
  | unclosedClass => "unclosed character class; missing ']'"
  | invalidRange low high =>
    "invalid range; '" ++ low.toString ++ "' > '" ++ high.toString ++ "'"
  | unclosedGroup =>
    "unclosed alternate group; missing '\x7d' (maybe escape '\x7b' with '[\x7b]'?)"
  | unopenedGroup =>
    "unopened alternate group; missing '\x7b' (maybe escape '\x7d' with '[\x7d]'?)"
  | danglingEscape => "dangling '\\'"

/-- One element of a pattern. -/
inductive Token where
  /-- The character itself. -/
  | literal (c : Char)
  /-- `?`, one byte. -/
  | anyByte
  /-- `*`, any bytes. -/
  | anyBytes
  /-- `**` at the front of a pattern or group. -/
  | anyPrefix
  /-- `**` at the end, after a slash. -/
  | inside
  /-- `**` between two slashes. -/
  | between
  /-- One byte inside the ranges, or outside them. -/
  | class (negated : Bool) (ranges : List (Char × Char))
  /-- One of several patterns. -/
  | group (branches : List (List Token))
  deriving Repr, Inhabited

/-- A pattern. -/
abbrev Pattern := List Token

/-! ## Matching -/

/-- The bytes of a character. -/
def bytesOf (c : Char) : List UInt8 := (String.singleton c).toUTF8.toList

/-- The byte lies in one of the ranges.  A character of more than one byte stands for each of its
bytes, and a range reaches from the last byte of its lower end to the first of its upper end. -/
def inRanges (b : UInt8) (ranges : List (Char × Char)) : Bool :=
  ranges.any fun (low, high) =>
    let lows := bytesOf low
    let highs := bytesOf high
    lows.contains b || highs.contains b ||
      (low != high && (lows.getLast?.any (· ≤ b)) && (highs.head?.any (b ≤ ·)))

/-- What follows `word`, if the bytes begin with it. -/
def dropWord : List UInt8 → List UInt8 → Option (List UInt8)
  | [], bytes => some bytes
  | _ :: _, [] => none
  | w :: word, b :: bytes => if w = b then dropWord word bytes else none

/-- Some end of the bytes is accepted. -/
def someSuffix (accept : List UInt8 → Bool) : List UInt8 → Bool
  | [] => accept []
  | b :: bytes => accept (b :: bytes) || someSuffix accept bytes

/-- Some end of the bytes after a slash is accepted. -/
def afterSomeSlash (accept : List UInt8 → Bool) : List UInt8 → Bool
  | [] => false
  | b :: bytes => (b == 47 && accept bytes) || afterSomeSlash accept bytes

/-- The bytes begin with a slash, and what follows is accepted. -/
def afterSlash (accept : List UInt8 → Bool) : List UInt8 → Bool
  | [] => false
  | b :: bytes => b == 47 && accept bytes

mutual

/-- A token that can stand for nothing but the empty text: a group of such branches only. -/
def Token.isVoid : Token → Bool
  | .group branches => allVoid branches
  | _ => false

/-- Every branch is empty or void. -/
def allVoid : List (List Token) → Bool
  | [] => true
  | branch :: branches => isVoid branch && allVoid branches

/-- The branch has no token, or only void ones. -/
def isVoid : List Token → Bool
  | [] => true
  | token :: tokens => token.isVoid && isVoid tokens

end

mutual

/-- The bytes begin with a match of the token, and the rest is accepted. -/
def Token.run : Token → (List UInt8 → Bool) → List UInt8 → Bool
  | .literal c, accept, bytes => (dropWord (bytesOf c) bytes).any accept
  | .anyByte, accept, bytes =>
    match bytes with
    | [] => false
    | _ :: rest => accept rest
  | .anyBytes, accept, bytes => someSuffix accept bytes
  | .anyPrefix, accept, bytes => accept bytes || afterSomeSlash accept bytes
  | .inside, accept, bytes => afterSlash (someSuffix accept) bytes
  | .between, accept, bytes => afterSlash accept bytes || afterSlash (afterSomeSlash accept) bytes
  | .class negated ranges, accept, bytes =>
    match bytes with
    | [] => false
    | b :: rest => (inRanges b ranges != negated) && accept rest
  | .group branches, accept, bytes =>
    if allVoid branches then accept bytes else runBranches branches accept bytes

/-- The bytes begin with a match of a branch that is not void, and the rest is accepted. -/
def runBranches : List (List Token) → (List UInt8 → Bool) → List UInt8 → Bool
  | [], _, _ => false
  | branch :: branches, accept, bytes =>
    (!isVoid branch && run branch accept bytes) || runBranches branches accept bytes

/-- The bytes begin with matches of the tokens, and the rest is accepted. -/
def run : List Token → (List UInt8 → Bool) → List UInt8 → Bool
  | [], accept, bytes => accept bytes
  | token :: tokens, accept, bytes => token.run (run tokens accept) bytes

end

/-- The pattern matches the bytes as a whole; `**` alone matches everything. -/
def Pattern.matches (pattern : Pattern) (bytes : List UInt8) : Bool :=
  match pattern with
  | [.anyPrefix] => true
  | _ => run pattern List.isEmpty bytes

end Rebuild.Glob
