import Mathlib.Tactic.Common
import Rebuild.Compilation.Freshness
import Rebuild.Proofs.Files.Reading
import Rebuild.Proofs.Path.Table

/-!
# What a fresh answer says

The cache answers a question about a file in two parts: `Cache.get` compares an entry's stamps with
the records, and `Cache.needsRecompilation` the records with the files.  `Cache.Fresh` is what both
say together, and `fresh?_eq_some_iff` that a pass asks for exactly this.

A digest travels a long way: from the disk to a record, from the record to a stamp.  `Fresh` pins
all three to each other for every dependency, at one level.
-/

namespace Rebuild

namespace Cache

/-- The entry `e` of `p` holds: the file is what was hashed into the entry, its record says so, and
every dependency is on disk what its record and its stamp say. -/
structure Fresh (c : Cache) (tree : FileTree) (p : Path) (e : CacheEntry) : Prop where
  entry : c.entries[p]? = some e
  now : currentDigest? tree p = some e.inputDigest
  record : ∃ r, c.records[p]? = some r ∧ r.digest = e.inputDigest
  dependencies : ∀ d ∈ e.dependencies, ∃ r, c.records[d]? = some r
    ∧ e.dependencyDigests[d]? = some r.digest ∧ currentDigest? tree d = some r.digest

/-- What a pass is answered when it asks for the entry of a file. -/
def fresh? (c : Cache) (tree : FileTree) (p : Path) : Option CacheEntry := (c.fresh tree p).2

variable {c : Cache} {tree : FileTree} {p : Path} {e : CacheEntry}

lemma stampAgrees_iff {d : Path} : c.stampAgrees e d = true ↔
    ∃ r, c.records[d]? = some r ∧ e.dependencyDigests[d]? = some r.digest := by
  rw [stampAgrees]
  cases hstamp : e.dependencyDigests[d]? <;> cases hrecord : c.records[d]? <;> simp

lemma recordAgrees_iff {d : Path} : c.recordAgrees tree d = true ↔
    ∃ r, c.records[d]? = some r ∧ currentDigest? tree d = some r.digest := by
  rw [recordAgrees]
  cases hrecord : c.records[d]? with
  | none => simp
  | some r =>
      cases hnow : currentDigest? tree d with
      | none => simp
      | some now =>
          simp only [beq_iff_eq, Option.some.injEq, exists_eq_left']
          exact eq_comm

lemma validEntry?_eq_some_iff : c.validEntry? tree p = some e ↔
    c.entries[p]? = some e ∧ currentDigest? tree p = some e.inputDigest
      ∧ ∀ d ∈ e.dependencies, c.stampAgrees e d = true := by
  unfold validEntry?
  cases hentry : c.entries[p]? with
  | none => simp
  | some found =>
      cases hnow : currentDigest? tree p with
      | none => simp
      | some now =>
          simp only [List.all_eq_true, Option.some.injEq]
          constructor
          · intro h
            split_ifs at h with hvalid
            cases h
            exact ⟨rfl, hvalid.1.symm, hvalid.2⟩
          · rintro ⟨rfl, hdigest, hstamps⟩
            rw [if_pos ⟨hdigest.symm, hstamps⟩]

lemma needsRecompilation_eq_false_iff : c.needsRecompilation tree p = false ↔
    ∃ now r e, currentDigest? tree p.normalize = some now ∧ c.records[p.normalize]? = some r
      ∧ c.entries[p.normalize]? = some e ∧ r.digest = now
      ∧ ∀ d ∈ e.dependencies, c.stampAgrees e d = true ∧ c.recordAgrees tree d = true := by
  unfold needsRecompilation
  cases hnow : currentDigest? tree p.normalize with
  | none => simp [hnow]
  | some now =>
      cases hrecord : c.records[p.normalize]? with
      | none => simp [hnow, hrecord]
      | some r =>
          cases hentry : c.entries[p.normalize]? with
          | none => simp [hnow, hrecord, hentry]
          | some e =>
              simp only [hnow, hrecord, hentry, Bool.or_eq_false_iff, bne_eq_false_iff_eq,
                List.any_eq_false, Bool.not_eq_true', Bool.not_eq_false, Bool.and_eq_true]
              constructor
              · rintro ⟨hdigest, hdeps⟩
                exact ⟨now, r, e, rfl, rfl, rfl, hdigest, hdeps⟩
              · rintro ⟨now', r', e', hn, hr, he, hdigest, hdeps⟩
                cases hn
                cases hr
                cases he
                exact ⟨hdigest, hdeps⟩

lemma get_snd (c : Cache) (tree : FileTree) (p : Path) :
    (c.get tree p).2 = c.validEntry? tree p.normalize := by
  simp only [get]
  cases c.validEntry? tree p.normalize <;> rfl

/-- A pass asks two questions. -/
lemma fresh?_eq_some_iff_asked : c.fresh? tree p = some e ↔
    (c.get tree p).2 = some e ∧ c.needsRecompilation tree p = false := by
  rw [get_snd]
  simp only [fresh?, fresh, get]
  cases hvalid : c.validEntry? tree p.normalize with
  | none => simp
  | some found => cases c.needsRecompilation tree p <;> simp

/-- **A pass is answered with an entry exactly when that entry is fresh.** -/
theorem fresh?_eq_some_iff : c.fresh? tree p = some e ↔ c.Fresh tree p.normalize e := by
  rw [fresh?_eq_some_iff_asked, get_snd, validEntry?_eq_some_iff, needsRecompilation_eq_false_iff]
  constructor
  · rintro ⟨⟨hentry, hnow, -⟩, now, r, e', hnow', hrecord, hentry', hdigest, hdeps⟩
    cases hentry.symm.trans hentry'
    cases hnow.symm.trans hnow'
    refine ⟨hentry, hnow, ⟨r, hrecord, hdigest⟩, fun d hd => ?_⟩
    obtain ⟨hstamp, hagrees⟩ := hdeps d hd
    obtain ⟨rd, hrd, hstamped⟩ := stampAgrees_iff.1 hstamp
    obtain ⟨rd', hrd', hcurrent⟩ := recordAgrees_iff.1 hagrees
    cases hrd.symm.trans hrd'
    exact ⟨rd, hrd, hstamped, hcurrent⟩
  · rintro ⟨hentry, hnow, ⟨r, hrecord, hdigest⟩, hdeps⟩
    have hstamp : ∀ d ∈ e.dependencies, c.stampAgrees e d = true := by
      intro d hd
      obtain ⟨rd, hrd, hstamped, -⟩ := hdeps d hd
      exact stampAgrees_iff.2 ⟨rd, hrd, hstamped⟩
    refine ⟨⟨hentry, hnow, hstamp⟩, _, r, e, hnow, hrecord, hentry, hdigest, fun d hd => ?_⟩
    obtain ⟨rd, hrd, -, hcurrent⟩ := hdeps d hd
    exact ⟨hstamp d hd, recordAgrees_iff.2 ⟨rd, hrd, hcurrent⟩⟩

/-! ## Questions change nothing -/

/-- The two caches differ at most in what they count. -/
structure SameContent (c c' : Cache) : Prop where
  directory : c'.directory = c.directory
  entries : c'.entries = c.entries
  records : c'.records = c.records
  graph : c'.graph = c.graph

lemma SameContent.refl (c : Cache) : c.SameContent c := ⟨rfl, rfl, rfl, rfl⟩

lemma SameContent.trans {c₁ c₂ c₃ : Cache} (h₁ : c₁.SameContent c₂) (h₂ : c₂.SameContent c₃) :
    c₁.SameContent c₃ :=
  ⟨h₂.directory.trans h₁.directory, h₂.entries.trans h₁.entries, h₂.records.trans h₁.records,
    h₂.graph.trans h₁.graph⟩

lemma sameContent_get (c : Cache) (tree : FileTree) (p : Path) :
    c.SameContent (c.get tree p).1 := by
  rw [get]
  cases c.validEntry? tree p.normalize <;> exact ⟨rfl, rfl, rfl, rfl⟩

/-- Asking about a file changes nothing that the cache knows. -/
lemma sameContent_fresh (c : Cache) (tree : FileTree) (p : Path) :
    c.SameContent (c.fresh tree p).1 := by
  have hget := sameContent_get c tree p
  rw [fresh]
  split <;> simp_all

lemma SameContent.fresh_iff {c' : Cache} (h : c.SameContent c') :
    c'.Fresh tree p e ↔ c.Fresh tree p e := by
  constructor
  · rintro ⟨hentry, hnow, hrecord, hdeps⟩
    rw [h.entries] at hentry
    rw [h.records] at hrecord hdeps
    exact ⟨hentry, hnow, hrecord, hdeps⟩
  · rintro ⟨hentry, hnow, hrecord, hdeps⟩
    rw [← h.entries] at hentry
    rw [← h.records] at hrecord hdeps
    exact ⟨hentry, hnow, hrecord, hdeps⟩

/-- What is answered does not depend on what was counted. -/
lemma SameContent.fresh?_eq {c' : Cache} (h : c.SameContent c') (tree : FileTree) (p : Path) :
    c'.fresh? tree p = c.fresh? tree p := by
  refine Option.ext fun e => ?_
  rw [fresh?_eq_some_iff, fresh?_eq_some_iff, h.fresh_iff]

end Cache
end Rebuild
