import Rebuild.Digest.Sha256
import Rebuild.Text.Hex

/-!
# Digests of content

Content is compared by digest: files that are equal have equal digests, and different ones are taken
to have different digests.
-/

namespace Rebuild

/-- A digest, as its hexadecimal text. -/
structure Digest where
  text : String
  deriving DecidableEq, Repr, Inhabited

namespace Digest

/-- The digest of bytes. -/
def ofBytes (bytes : ByteArray) : Digest :=
  ⟨String.ofList ((Sha256.digest bytes.toList).flatMap fun w => Text.Hex.ofNat 8 w.toNat)⟩

/-- The digest of a text. -/
def ofText (text : String) : Digest := ofBytes text.toUTF8

/-- The characters that fit into `size` bytes from the front on. -/
def fitting (size : Nat) : List Char → List Char
  | [] => []
  | c :: cs => if c.utf8Size ≤ size then c :: fitting (size - c.utf8Size) cs else []

/-- The first twelve bytes of the text, for people to look at. -/
def short (d : Digest) : String := String.ofList (fitting 12 d.text.toList)

end Digest
end Rebuild
