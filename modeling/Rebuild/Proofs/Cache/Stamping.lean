import Rebuild.Proofs.Cache.Storing

/-!
# What a store leaves fresh

An entry that was stored a moment ago need not be fresh: it is stamped with the records of its
dependencies, and these may be behind the files, or missing for files that cannot be read.  A file that
needs itself is a case of its own, as its stamp is taken before its record is replaced.

* **In place.**  `storeInPlace` changes a cache table after table, and keeps what is changed when an
  error arises; `run_storeInPlace` says that none arises after the first change.
* **Answers.**  `Stored.needsRecompilation_iff` and `Stored.get_iff`: what is asked right after a store.
* **Endpoint.**  `store_exact`, for every cache.
-/

namespace Rebuild.Cache

variable {c c' : Cache} {tree : FileTree} {now : Timestamp} {p d : Path} {output : String}
  {ds : List Path} {metadata : Option Json} {e : CacheEntry}

/-! ## In place -/

/-- The stamps after a dependency: the digest on record or, at first sight, the one of the file, which is
then on record too. -/
def stampInPlace (tree : FileTree) (stamps : PathMap Digest) (d : Path) :
    StateM Cache (PathMap Digest) := do
  match (← getThe Cache).records[d]? with
  | some record => return stamps.put d record.digest
  | none =>
    match FileRecord.ofFile tree d with
    | .ok record =>
      modify fun c => { c with records := c.records.put d record }
      return stamps.put d record.digest
    | .error _ => return stamps

/-- The stamps of these dependencies, after those that there are. -/
def stampAllInPlace (tree : FileTree) (ds : List Path) (stamps : PathMap Digest) :
    StateM Cache (PathMap Digest) :=
  ds.foldlM (stampInPlace tree) stamps

/-- A successful compile of a file, stored table after table. -/
def storeInPlace (tree : FileTree) (now : Timestamp) (p : Path) (output : String)
    (reported : List Path) (metadata : Option Json) : ExceptT BuildError (StateM Cache) Unit := do
  let p := p.normalize
  let record ← MonadExcept.ofExcept (FileRecord.ofFile tree p)
  let dependencies := reported.map Path.normalize
  let stamps ← stampAllInPlace tree dependencies ∅
  let outputDigest := Digest.ofText output
  modify fun c => { c with graph := c.graph.setDependencies p dependencies }
  modify fun c => { c with graph := c.graph.recordBuild p record.digest outputDigest metadata }
  modify fun c => { c with records := c.records.put p record }
  modify fun c => { c with entries := c.entries.put p {
    inputDigest := record.digest
    output
    outputDigest
    dependencies
    dependencyDigests := stamps
    timestamp := now
    metadata } }
  modify fun c => { c with stores := c.stores + 1 }

/-- The cache with these records. -/
def withRecords (c : Cache) (records : PathMap FileRecord) : Cache := { c with records }

lemma run_stampInPlace (stamps : PathMap Digest) (d : Path) (c : Cache) :
    (stampInPlace tree stamps d).run c = ((stamp tree (c.records, stamps) d).2,
      c.withRecords (stamp tree (c.records, stamps) d).1) := by
  simp only [stampInPlace, stamp]
  cases hrecord : c.records[d]? with
  | some r =>
      simp [hrecord]
      rfl
  | none =>
      cases hfile : FileRecord.ofFile tree d <;> simp [hrecord] <;> rfl

lemma run_stampAllInPlace (tree : FileTree) (ds : List Path) (stamps : PathMap Digest) (c : Cache) :
    (stampAllInPlace tree ds stamps).run c = ((stampAll tree ds (c.records, stamps)).2,
      c.withRecords (stampAll tree ds (c.records, stamps)).1) := by
  induction ds generalizing stamps c with
  | nil => rfl
  | cons d ds ih =>
      rw [stampAllInPlace, List.foldlM_cons, StateT.run_bind, run_stampInPlace]
      exact ih _ _

/-- **In place.**  The cache that is changed in place ends as the stored one, and where storing fails, as
it was. -/
theorem run_storeInPlace (c : Cache) (tree : FileTree) (now : Timestamp) (p : Path) (output : String)
    (reported : List Path) (metadata : Option Json) :
    (storeInPlace tree now p output reported metadata).run.run c
      = match c.store tree now p output reported metadata with
        | .ok c' => (.ok (), c')
        | .error error => (.error error, c) := by
  simp only [storeInPlace, store]
  cases hfile : FileRecord.ofFile tree p.normalize with
  | error err => rfl
  | ok r =>
      have hstamps := run_stampAllInPlace tree (reported.map Path.normalize) ∅ c
      rw [stampAll] at hstamps
      simp [MonadExcept.ofExcept, ExceptT.run_bind, hstamps]
      rfl

/-! ## Answers -/

namespace Stored

/-- The stored entry is fresh exactly if every dependency can be read and none was behind. -/
lemma fresh_iff (h : c.Stored tree p output ds metadata c' e) (hp : p.normalize = p)
    (hds : ∀ d ∈ ds, d.normalize = d) :
    c'.Fresh tree p e ↔ ∀ d ∈ ds, (currentDigest? tree d).isSome ∧ ¬c.Behind tree d := by
  constructor
  · intro hfresh d hd
    obtain ⟨r, -, -, hnow⟩ := hfresh.dependencies d (h.dependencies_eq.symm ▸ hd)
    exact ⟨by rw [hnow]; rfl, h.not_behind_of_fresh hfresh hds (fun _ _ => rfl) d hd⟩
  · intro hall
    exact h.fresh hp hds (fun d hd => (hall d hd).1) fun d hd => (hall d hd).2

/-- Nothing but the dependencies is open after a store: entry and record agree with the file. -/
lemma needsRecompilation_iff (h : c.Stored tree p.normalize output ds metadata c' e) :
    c'.needsRecompilation tree p = false ↔ c'.Fresh tree p.normalize e := by
  have hp := Path.normalize_normalize p
  have hentry : c'.entries[p.normalize]? = some e := by rw [h.entries _ hp, if_pos rfl]
  constructor
  · intro hneeds
    obtain ⟨now, r, e', hnow, hrecord, hentry', hdigest, hdeps⟩ :=
      needsRecompilation_eq_false_iff.1 hneeds
    cases hentry.symm.trans hentry'
    cases hnow.symm.trans h.now
    refine ⟨hentry, h.now, ⟨r, hrecord, hdigest⟩, fun d hd => ?_⟩
    obtain ⟨hstamp, hagrees⟩ := hdeps d hd
    obtain ⟨rd, hrd, hstamped⟩ := stampAgrees_iff.1 hstamp
    obtain ⟨rd', hrd', hcurrent⟩ := recordAgrees_iff.1 hagrees
    cases hrd.symm.trans hrd'
    exact ⟨rd, hrd, hstamped, hcurrent⟩
  · intro hfresh
    exact (fresh?_eq_some_iff_asked.1 (fresh?_eq_some_iff.2 hfresh)).2

/-- The stamp of another file agrees with its record as soon as there is a record, or something to
record. -/
lemma stampAgrees_of_ne (h : c.Stored tree p output ds metadata c' e) (hd : d ∈ ds)
    (hnormal : d.normalize = d) (hne : d ≠ p) :
    c'.stampAgrees e d = true ↔ (c.records[d]?).isSome ∨ (currentDigest? tree d).isSome := by
  obtain ⟨r, -, hrecords⟩ := h.record
  rw [stampAgrees_iff, hrecords d hnormal, if_neg hne, if_pos hd, h.stamps d hnormal, if_pos hd]
  constructor
  · rintro ⟨s, hseen, -⟩
    rcases seen_digest hseen with hrecord | ⟨-, hnow⟩
    · exact Or.inl (by rw [hrecord]; rfl)
    · exact Or.inr (by rw [hnow]; rfl)
  · rintro (hrecord | hnow)
    · obtain ⟨s, hs⟩ := Option.isSome_iff_exists.1 hrecord
      exact ⟨s, seen_of_record hs, by rw [seen_of_record hs]; rfl⟩
    · obtain ⟨s, hs⟩ := exists_seen c.records hnow
      exact ⟨s, hs, by rw [hs]; rfl⟩

/-- The stamp of the file itself was taken from its old record, and agrees with the new one if that was
not behind. -/
lemma stampAgrees_self (h : c.Stored tree p output ds metadata c' e) (hd : p ∈ ds)
    (hp : p.normalize = p) : c'.stampAgrees e p = true ↔ ¬c.Behind tree p := by
  obtain ⟨r, hfile, hrecords⟩ := h.record
  have hnow := FileRecord.ofFile_eq_ok hfile
  obtain ⟨s, hseen⟩ := exists_seen c.records (by rw [hnow]; rfl : (currentDigest? tree p).isSome)
  have hstamp : e.dependencyDigests[p]? = some s.digest := by
    rw [h.stamps p hp, if_pos hd, hseen]
    rfl
  rw [stampAgrees_iff, hrecords p hp, if_pos rfl, ← h.stamp_eq_iff hp hstamp, hnow, hstamp]
  simp [eq_comm]

/-- What the cache has for the file after a store. -/
lemma get_iff (h : c.Stored tree p.normalize output ds metadata c' e)
    (hds : ∀ d ∈ ds, d.normalize = d) :
    (c'.get tree p).2 = some e ↔
      (∀ d ∈ ds, d ≠ p.normalize → (c.records[d]?).isSome ∨ (currentDigest? tree d).isSome)
        ∧ (p.normalize ∈ ds → ¬c.Behind tree p.normalize) := by
  have hp := Path.normalize_normalize p
  have hentry : c'.entries[p.normalize]? = some e := by rw [h.entries _ hp, if_pos rfl]
  rw [get_snd, validEntry?_eq_some_iff, h.dependencies_eq, and_iff_right hentry, and_iff_right h.now]
  constructor
  · intro hall
    exact ⟨fun d hd hne => (h.stampAgrees_of_ne hd (hds d hd) hne).1 (hall d hd),
      fun hd => (h.stampAgrees_self hd hp).1 (hall _ hd)⟩
  · rintro ⟨hothers, hself⟩ d hd
    by_cases hdp : d = p.normalize
    · rw [hdp] at hd ⊢
      exact (h.stampAgrees_self hd hp).2 (hself hd)
    · exact (h.stampAgrees_of_ne hd (hds d hd) hdp).2 (hothers d hd hdp)

end Stored

/-- A file is not behind if there is no record, or the record is what the file is. -/
lemma not_behind_iff {digest : Digest} (hnow : currentDigest? tree d = some digest) :
    ¬c.Behind tree d ↔ ∀ r, c.records[d]? = some r → r.digest = digest := by
  simp [Behind, hnow, eq_comm]

/-- **What a store leaves fresh.**  A store that fails found that the file cannot be read, and leaves the
cache as it was, whatever is changed in place.  After a store that succeeds, the file need not be
compiled exactly if every dependency can be read and is what its record said before, if it had one; and
the cache has the entry exactly if every dependency had a record or can be read, and the file itself, if
it is among them, is what its own record said before. -/
theorem store_exact (c : Cache) (tree : FileTree) (now : Timestamp) (p : Path) (output : String)
    (reported : List Path) (metadata : Option Json) :
    match c.store tree now p output reported metadata with
    | .error error => FileRecord.ofFile tree p.normalize = .error error
      ∧ (storeInPlace tree now p output reported metadata).run.run c = (.error error, c)
    | .ok c' => (storeInPlace tree now p output reported metadata).run.run c = (.ok (), c')
      ∧ (c'.needsRecompilation tree p = false ↔ ∀ d ∈ reported.map Path.normalize,
        ∃ digest, currentDigest? tree d = some digest
          ∧ ∀ r, c.records[d]? = some r → r.digest = digest)
      ∧ ∃ e, c'.entries[p.normalize]? = some e ∧ e.output = output
        ∧ e.dependencies = reported.map Path.normalize
        ∧ currentDigest? tree p.normalize = some e.inputDigest
        ∧ ((c'.get tree p).2 = some e ↔
          (∀ d ∈ reported.map Path.normalize, d ≠ p.normalize →
            (c.records[d]?).isSome ∨ (currentDigest? tree d).isSome)
          ∧ (p.normalize ∈ reported.map Path.normalize →
            ∀ r, c.records[p.normalize]? = some r → r.digest = e.inputDigest)) := by
  have hrun := run_storeInPlace c tree now p output reported metadata
  cases hstore : c.store tree now p output reported metadata with
  | error err =>
      rw [hstore] at hrun
      refine ⟨?_, hrun⟩
      rw [store] at hstore
      cases hfile : FileRecord.ofFile tree p.normalize with
      | error err' =>
          rw [hfile] at hstore
          cases hstore
          rfl
      | ok r =>
          rw [hfile] at hstore
          cases hstore
  | ok c' =>
      rw [hstore] at hrun
      obtain ⟨e, hstored⟩ := exists_stored hstore
      have hp := Path.normalize_normalize p
      have hds : ∀ d ∈ reported.map Path.normalize, d.normalize = d :=
        fun _ => Path.normalize_of_mem_map
      refine ⟨hrun, ?_, e, by rw [hstored.entries _ hp, if_pos rfl], hstored.output_eq,
        hstored.dependencies_eq, hstored.now, ?_⟩
      · rw [hstored.needsRecompilation_iff, hstored.fresh_iff hp hds]
        refine forall₂_congr fun d _ => ?_
        constructor
        · rintro ⟨hread, hbehind⟩
          obtain ⟨digest, hnow⟩ := Option.isSome_iff_exists.1 hread
          exact ⟨digest, hnow, (not_behind_iff hnow).1 hbehind⟩
        · rintro ⟨digest, hnow, hrecord⟩
          exact ⟨by rw [hnow]; rfl, (not_behind_iff hnow).2 hrecord⟩
      · rw [hstored.get_iff hds, not_behind_iff hstored.now]

end Rebuild.Cache
