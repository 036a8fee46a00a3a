import Mathlib.Data.List.Nodup
import Mathlib.Data.Set.Function
import Mathlib.Tactic.Common
import Rebuild.Cache.Basic

/-!
# Reading and hashing a file

A file is read as bytes, as text, or for its digest.  All three go by what `FileTree.find?` finds,
so each is told from the bytes.
-/

namespace Rebuild

/-- The text of bytes that were written as a text. -/
lemma fromUTF8?_toUTF8 (text : String) : String.fromUTF8? text.toUTF8 = some text :=
  dif_pos text.isValidUTF8

namespace FileTree

variable {tree : FileTree} {p : Path}

lemma readBytes_eq_ok_iff {bytes : ByteArray} :
    tree.readBytes p = .ok bytes ↔ ∃ f, tree.find? p = .ok (.file f) ∧ f.bytes = bytes := by
  rw [readBytes]
  cases tree.find? p with
  | error cause => simp [bind, Except.bind]
  | ok found =>
      cases found with
      | directory => simp [bind, Except.bind, throw, throwThe, MonadExceptOf.throw]
      | file f =>
          constructor
          · intro h
            cases h
            exact ⟨f, rfl, rfl⟩
          · rintro ⟨g, hg, rfl⟩
            cases hg
            rfl

lemma readText_eq_ok_iff {text : String} :
    tree.readText p = .ok text ↔
      ∃ bytes, tree.readBytes p = .ok bytes ∧ String.fromUTF8? bytes = some text := by
  rw [readText]
  cases tree.readBytes p with
  | error cause => simp [bind, Except.bind]
  | ok bytes =>
      cases hdecode : String.fromUTF8? bytes with
      | none => simp [bind, Except.bind, hdecode, throw, throwThe, MonadExceptOf.throw]
      | some found => simp [bind, Except.bind, hdecode, pure, Except.pure]

end FileTree

/-- All files of the tree have their contents among these. -/
def Within (known : Set ByteArray) (tree : FileTree) : Prop :=
  ∀ p bytes, tree.readBytes p = .ok bytes → bytes ∈ known

/-- The bytes of these texts. -/
def bytesOf (texts : List String) : Set ByteArray := {bytes | ∃ text ∈ texts, text.toUTF8 = bytes}

lemma mem_bytesOf {texts : List String} {text : String} (h : text ∈ texts) :
    text.toUTF8 ∈ bytesOf texts :=
  ⟨text, h, rfl⟩

lemma injOn_bytesOf {texts : List String}
    (h : (texts.map fun text => Digest.ofBytes text.toUTF8).Nodup) :
    Set.InjOn Digest.ofBytes (bytesOf texts) := by
  rintro _ ⟨text, htext, rfl⟩ _ ⟨text', htext', rfl⟩ hdigest
  rw [List.inj_on_of_nodup_map h htext htext' hdigest]

namespace FileRecord

variable {tree : FileTree} {p : Path}

lemma ofFile_eq_ok {r : FileRecord} (h : ofFile tree p = .ok r) :
    Cache.currentDigest? tree p = some r.digest := by
  rw [Cache.currentDigest?]
  rw [h]

/-- A file has a digest exactly when a record can be made of it. -/
lemma exists_ofFile {d : Digest} (h : Cache.currentDigest? tree p = some d) :
    ∃ r, ofFile tree p = .ok r ∧ r.digest = d := by
  rw [Cache.currentDigest?] at h
  cases hfile : ofFile tree p with
  | ok r =>
      rw [hfile] at h
      exact ⟨r, rfl, Option.some.inj h⟩
  | error e =>
      rw [hfile] at h
      cases h

end FileRecord

namespace Cache

variable {tree tree' : FileTree} {p : Path}

/-- A file has the digest of its bytes, and nothing else has one. -/
lemma currentDigest?_eq_some_iff {digest : Digest} :
    currentDigest? tree p = some digest ↔
      ∃ bytes, tree.readBytes p = .ok bytes ∧ Digest.ofBytes bytes = digest := by
  have hfile : currentDigest? tree p = some digest ↔
      ∃ f, tree.find? p = .ok (.file f) ∧ Digest.ofBytes f.bytes = digest := by
    rw [currentDigest?, FileRecord.ofFile]
    cases tree.find? p with
    | error cause => simp
    | ok found => cases found <;> simp
  rw [hfile]
  constructor
  · rintro ⟨f, hf, hdigest⟩
    exact ⟨f.bytes, FileTree.readBytes_eq_ok_iff.2 ⟨f, hf, rfl⟩, hdigest⟩
  · rintro ⟨bytes, hread, hdigest⟩
    obtain ⟨f, hf, rfl⟩ := FileTree.readBytes_eq_ok_iff.1 hread
    exact ⟨f, hf, hdigest⟩

lemma currentDigest?_congr (h : tree'.find? p = tree.find? p) :
    currentDigest? tree' p = currentDigest? tree p := by
  simp only [currentDigest?, FileRecord.ofFile]
  rw [h]

lemma isSome_currentDigest? (h : tree.isFile p = true) : (currentDigest? tree p).isSome := by
  rw [FileTree.isFile] at h
  split at h
  · rename_i f hf
    rw [currentDigest?, FileRecord.ofFile]
    rw [hf]
    rfl
  · cases h

end Cache
end Rebuild
