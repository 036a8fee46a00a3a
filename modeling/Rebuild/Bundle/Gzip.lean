import Std.Data.HashMap

/-!
# The size of a text in gzip format

How long bytes become when they are compressed: as literals and copies of what came before, written in
the fixed code of the format, or as they are where that is shorter.  A code made for the content, which
pays for long contents only, is not considered.

* `Gzip.tokens` finds the copies.  A copy is held back by one byte, in case a longer one begins there.
* `Gzip.size` counts the bits.
-/

namespace Rebuild.Gzip

/-- A piece of compressed content. -/
inductive Token where
  /-- The byte itself. -/
  | literal (byte : UInt8)
  /-- So many bytes from so far back. -/
  | copy (length distance : Nat)
  deriving DecidableEq, Repr

/-- The longest copy, and the distance that a copy can reach. -/
def maxLength : Nat := 258

/-- How far back a copy can reach. -/
def maxDistance : Nat := 32768 - 262

/-- How many earlier places are tried for a copy. -/
def maxTries : Nat := 128

/-- A copy of this length is taken without looking whether a longer one follows. -/
def longEnough : Nat := 16

/-- The places at which each three bytes were seen, the latest first. -/
abbrev Window := Std.HashMap (UInt8 × UInt8 × UInt8) (List Nat)

/-- The three bytes at a place. -/
def key? (bytes : ByteArray) (i : Nat) : Option (UInt8 × UInt8 × UInt8) :=
  if h : i + 2 < bytes.size then some (bytes[i], bytes[i + 1], bytes[i + 2]) else none

/-- The window with a place noted; nothing is copied from the very first place. -/
def note (bytes : ByteArray) (window : Window) (i : Nat) : Window :=
  match key? bytes i with
  | some key => if i = 0 then window else window.insert key (i :: window.getD key [])
  | none => window

/-- How many bytes at two places agree, up to `limit`. -/
def agreement (bytes : ByteArray) (p i : Nat) : Nat → Nat
  | 0 => 0
  | limit + 1 =>
    if bytes[p]? = bytes[i]? ∧ i < bytes.size then agreement bytes (p + 1) (i + 1) limit + 1 else 0

/-- The longest copy at a place from one of the places before it, if it is longer than `best`. -/
def longest (bytes : ByteArray) (i best : Nat) (places : List Nat) : Option (Nat × Nat) :=
  (places.foldl (fun (best, found) p =>
    let n := agreement bytes p i maxLength
    if best < n ∧ i - p ≤ maxDistance then (n, some (n, i - p)) else (best, found))
    (best, none)).2

/-- The copy to take at a place, if it is longer than the one that is held. -/
def copy? (bytes : ByteArray) (window : Window) (i held : Nat) : Option (Nat × Nat) :=
  if longEnough ≤ held then none
  else (key? bytes i).bind fun key =>
    longest bytes i (max held 2) ((window.getD key []).take maxTries)

/-- The tokens from a place on, when a copy that begins one byte before it may be held.  The number of
steps bounds the search. -/
def tokensFrom (bytes : ByteArray) : Nat → Nat → Window → Option (Nat × Nat) → List Token → List Token
  | 0, _, _, _, done => done.reverse
  | steps + 1, i, window, held, done =>
    if h : i < bytes.size then
      let found := copy? bytes window i (held.elim 0 Prod.fst)
      let noted := note bytes window i
      match held, found with
      | none, none => tokensFrom bytes steps (i + 1) noted none (.literal bytes[i] :: done)
      | none, some _ => tokensFrom bytes steps (i + 1) noted found done
      | some _, some _ =>
        tokensFrom bytes steps (i + 1) noted found (.literal (bytes.get! (i - 1)) :: done)
      | some (length, distance), none =>
        let inside := (List.range (length - 2)).map (i + 1 + ·)
        tokensFrom bytes steps (i - 1 + length) (inside.foldl (note bytes) noted) none
          (.copy length distance :: done)
    else done.reverse

/-- The content as literals and copies. -/
def tokens (bytes : ByteArray) : List Token :=
  tokensFrom bytes (bytes.size + 1) 0 ∅ none []

/-! ## Bits -/

/-- The extra bits of a length. -/
def lengthBits (length : Nat) : Nat :=
  if length < 11 ∨ length = 258 then 0 else (length - 3).log2 - 2

/-- The extra bits of a distance. -/
def distanceBits (distance : Nat) : Nat :=
  if distance < 5 then 0 else (distance - 1).log2 - 1

/-- The bits of a token in the fixed code. -/
def Token.bits : Token → Nat
  | literal byte => if byte < 144 then 8 else 9
  | copy length distance =>
    (if length < 115 then 7 else 8) + lengthBits length + 5 + distanceBits distance

/-- The bytes of one block in the fixed code. -/
def fixedSize (tokens : List Token) : Nat :=
  (tokens.foldl (fun sum t => sum + t.bits) 10 + 7) / 8

/-- The bytes of content that is stored as it is. -/
def storedSize (size : Nat) : Nat := size + 5 * max 1 ((size + 65534) / 65535)

/-- The size of content in gzip format, with header and checksum. -/
def size (bytes : ByteArray) : Nat :=
  18 + min (fixedSize (tokens bytes)) (storedSize bytes.size)

end Rebuild.Gzip
