import Rebuild.Proofs.Cache.Fresh

/-!
# What storing does

`Cache.store` stamps each dependency with the digest on record, and looks at the file only where
there is no record (`seen`).  A record can therefore be behind the file that it is about, and a
stamp that is copied from it is behind too.

* **Stamping.**  `stampAll_records` and `stampAll_stamps` say what the fold over the dependencies
  leaves.
* **Storing.**  `Stored` says what each table answers after a store.
* **Behind.**  `Stored.stamp_eq_iff`: a stamp is what the file is exactly when the record was not
  `Behind`; and `Stored.behind_iff` says what becomes of records that are.
* **Fresh.**  `Stored.fresh` and `Stored.fresh_of_ne`: what is fresh after a store.
-/

namespace Rebuild.Cache

variable {c c' : Cache} {tree : FileTree} {now : Timestamp} {p q d : Path} {output : String}
  {reported : List Path} {metadata : Option Json} {e : CacheEntry}

/-! ## Stamping -/

/-- The record of a file or, at first sight, what the record would be. -/
def seen (tree : FileTree) (records : PathMap FileRecord) (q : Path) : Option FileRecord :=
  records[q]?.or (FileRecord.ofFile tree q).toOption

lemma seen_of_record {records : PathMap FileRecord} {r : FileRecord} (h : records[q]? = some r) :
    seen tree records q = some r := by
  rw [seen]
  rw [h, Option.some_or]

/-- All dependencies stamped, from these records on. -/
def stampAll (tree : FileTree) (ds : List Path) (state : PathMap FileRecord × PathMap Digest) :
    PathMap FileRecord × PathMap Digest :=
  ds.foldl (stamp tree) state

lemma stamp_records {state : PathMap FileRecord × PathMap Digest} (hd : d.normalize = d)
    (hq : q.normalize = q) :
    (stamp tree state d).1[q]? = if q = d then seen tree state.1 d else state.1[q]? := by
  rw [stamp, seen]
  cases hrecord : state.1[d]? with
  | some r =>
      by_cases h : q = d
      · rw [if_pos h, h, hrecord]
        rfl
      · rw [if_neg h]
  | none =>
      cases hfile : FileRecord.ofFile tree d with
      | ok r =>
          simp only [PathMap.getElem?_put, Path.compare_eq_iff_eq hd hq, eq_comm (a := d)]
          rfl
      | error err =>
          by_cases h : q = d
          · rw [if_pos h, h]
            exact hrecord
          · rw [if_neg h]

lemma stamp_stamps {state : PathMap FileRecord × PathMap Digest} (hd : d.normalize = d)
    (hq : q.normalize = q) :
    (stamp tree state d).2[q]?
      = if q = d then ((seen tree state.1 d).map FileRecord.digest).or state.2[d]?
        else state.2[q]? := by
  rw [stamp, seen]
  cases hrecord : state.1[d]? with
  | some r =>
      simp only [PathMap.getElem?_put, Path.compare_eq_iff_eq hd hq, eq_comm (a := d)]
      rfl
  | none =>
      cases hfile : FileRecord.ofFile tree d with
      | ok r =>
          simp only [PathMap.getElem?_put, Path.compare_eq_iff_eq hd hq, eq_comm (a := d)]
          rfl
      | error err =>
          by_cases h : q = d
          · rw [if_pos h, h]
            rfl
          · rw [if_neg h]

/-- What one stamp brings in is what a second look finds. -/
lemma seen_stamp {state : PathMap FileRecord × PathMap Digest} (hd : d.normalize = d)
    (hq : q.normalize = q) : seen tree (stamp tree state d).1 q = seen tree state.1 q := by
  rw [seen]
  rw [stamp_records hd hq]
  split_ifs with h
  · rw [h]
    rw [seen]
    cases state.1[d]? <;> cases FileRecord.ofFile tree d <;> rfl
  · rfl

/-- After all stamps, a dependency has the record that it had, or at first sight that of its file. -/
lemma stampAll_records {ds : List Path} (state : PathMap FileRecord × PathMap Digest)
    (hds : ∀ d ∈ ds, d.normalize = d) (hq : q.normalize = q) :
    (stampAll tree ds state).1[q]? = if q ∈ ds then seen tree state.1 q else state.1[q]? := by
  induction ds generalizing state with
  | nil => simp [stampAll]
  | cons d ds ih =>
      have hd := hds d List.mem_cons_self
      have hnext := @ih (stamp tree state d) fun x hx => hds x (List.mem_cons_of_mem _ hx)
      rw [stampAll] at hnext ⊢
      rw [List.foldl_cons, hnext, seen_stamp hd hq, stamp_records hd hq]
      by_cases h : q = d
      · rw [if_pos h, if_pos (List.mem_cons.2 (Or.inl h)), h]
        split_ifs <;> rfl
      · rw [if_neg h]
        simp only [List.mem_cons, h, false_or]

/-- After all stamps, a dependency is stamped with the digest of that record. -/
lemma stampAll_stamps {ds : List Path} {state : PathMap FileRecord × PathMap Digest}
    (hds : ∀ d ∈ ds, d.normalize = d) (hq : q.normalize = q) :
    (stampAll tree ds state).2[q]?
      = if q ∈ ds then ((seen tree state.1 q).map FileRecord.digest).or state.2[q]?
        else state.2[q]? := by
  induction ds generalizing state with
  | nil => simp [stampAll]
  | cons d ds ih =>
      have hd := hds d List.mem_cons_self
      have hnext := @ih (stamp tree state d) fun x hx => hds x (List.mem_cons_of_mem _ hx)
      rw [stampAll] at hnext ⊢
      rw [List.foldl_cons, hnext, seen_stamp hd hq, stamp_stamps hd hq]
      by_cases h : q = d
      · rw [if_pos h, if_pos (List.mem_cons.2 (Or.inl h)), h, ← Option.or_assoc, Option.or_self]
        split_ifs <;> rfl
      · rw [if_neg h]
        simp only [List.mem_cons, h, false_or]

/-- A record that is there stays through all stamps. -/
lemma stampAll_of_record {ds : List Path} {state : PathMap FileRecord × PathMap Digest}
    {r : FileRecord} (h : state.1[q]? = some r) : (stampAll tree ds state).1[q]? = some r := by
  induction ds generalizing state with
  | nil => exact h
  | cons d ds ih =>
      refine ih ?_
      rw [stamp]
      cases hrecord : state.1[d]? with
      | some found => exact h
      | none =>
          cases FileRecord.ofFile tree d with
          | error err => exact h
          | ok found =>
              have hne : compare d q ≠ .eq := by
                intro hdq
                rw [PathMap.getElem?_congr _ hdq, h] at hrecord
                cases hrecord
              exact (PathMap.getElem?_put_of_ne _ _ hne).trans h

/-- Only dependencies are stamped. -/
lemma mem_stampAll {ds : List Path} {state : PathMap FileRecord × PathMap Digest}
    (h : q ∈ (stampAll tree ds state).2) : q ∈ state.2 ∨ ∃ d ∈ ds, compare d q = .eq := by
  induction ds generalizing state with
  | nil => exact Or.inl h
  | cons d ds ih =>
      have hput : ∀ digest : Digest, q ∈ state.2.put d digest →
          q ∈ state.2 ∨ compare d q = .eq := by
        intro digest hmem
        rw [Std.TreeMap.mem_iff_isSome_getElem?, PathMap.getElem?_put] at hmem
        split_ifs at hmem with hdq
        · exact Or.inr hdq
        · exact Or.inl (Std.TreeMap.mem_iff_isSome_getElem?.2 hmem)
      have hstamp : q ∈ (stamp tree state d).2 → q ∈ state.2 ∨ compare d q = .eq := by
        rw [stamp]
        cases state.1[d]? with
        | some found => exact hput _
        | none =>
            cases FileRecord.ofFile tree d with
            | error err => exact Or.inl
            | ok found => exact hput _
      rcases ih h with hmem | ⟨x, hx, hxq⟩
      · rcases hstamp hmem with hold | hdq
        · exact Or.inl hold
        · exact Or.inr ⟨d, List.mem_cons_self, hdq⟩
      · exact Or.inr ⟨x, List.mem_cons_of_mem _ hx, hxq⟩

/-! ## Storing -/

/-- The tables after a store that succeeds. -/
lemma exists_tables (h : c.store tree now p output reported metadata = .ok c') :
    ∃ r e, FileRecord.ofFile tree p.normalize = .ok r
      ∧ e = { inputDigest := r.digest
              output
              outputDigest := Digest.ofText output
              dependencies := reported.map Path.normalize
              dependencyDigests := (stampAll tree (reported.map Path.normalize) (c.records, ∅)).2
              timestamp := now
              metadata : CacheEntry }
      ∧ c'.entries = c.entries.put p.normalize e
      ∧ c'.records
        = (stampAll tree (reported.map Path.normalize) (c.records, ∅)).1.put p.normalize r
      ∧ c'.graph = (c.graph.setDependencies p.normalize (reported.map Path.normalize)).recordBuild
        p.normalize r.digest (Digest.ofText output) metadata := by
  rw [store] at h
  cases hfile : FileRecord.ofFile tree p.normalize with
  | error err =>
      simp only [hfile] at h
      cases h
  | ok r =>
      simp only [hfile] at h
      cases h
      exact ⟨r, _, rfl, rfl, rfl, rfl, rfl⟩

/-- The cache `c'` is `c` after storing an output of `p`, which needs `ds` (both in normal form). -/
structure Stored (c : Cache) (tree : FileTree) (p : Path) (output : String) (ds : List Path)
    (metadata : Option Json) (c' : Cache) (e : CacheEntry) : Prop where
  directory : c'.directory = c.directory
  now : currentDigest? tree p = some e.inputDigest
  output_eq : e.output = output
  dependencies_eq : e.dependencies = ds
  stamps : ∀ q, q.normalize = q → e.dependencyDigests[q]?
    = if q ∈ ds then (seen tree c.records q).map FileRecord.digest else none
  record : ∃ r, FileRecord.ofFile tree p = .ok r ∧ ∀ q, q.normalize = q → c'.records[q]?
    = if q = p then some r else if q ∈ ds then seen tree c.records q else c.records[q]?
  entries : ∀ q, q.normalize = q → c'.entries[q]? = if q = p then some e else c.entries[q]?
  graph : c'.graph = (c.graph.setDependencies p ds).recordBuild p e.inputDigest
    (Digest.ofText output) metadata

/-- A store does what `Stored` says. -/
theorem exists_stored (h : c.store tree now p output reported metadata = .ok c') :
    ∃ e, c.Stored tree p.normalize output (reported.map Path.normalize) metadata c' e := by
  rw [store] at h
  cases hfile : FileRecord.ofFile tree p.normalize with
  | error err =>
      simp only [hfile] at h
      cases h
  | ok r =>
      simp only [hfile] at h
      have hds : ∀ d ∈ reported.map Path.normalize, d.normalize = d :=
        fun _ => Path.normalize_of_mem_map
      cases h
      have hp := Path.normalize_normalize p
      let stored : CacheEntry := {
        inputDigest := r.digest
        output
        outputDigest := Digest.ofText output
        dependencies := reported.map Path.normalize
        dependencyDigests := (stampAll tree (reported.map Path.normalize) (c.records, ∅)).2
        timestamp := now
        metadata }
      refine ⟨stored, rfl, FileRecord.ofFile_eq_ok hfile, rfl, rfl, ?_, ⟨r, hfile, ?_⟩, ?_, rfl⟩
      · intro q hq
        refine (stampAll_stamps hds hq).trans ?_
        simp
      · intro q hq
        rw [PathMap.getElem?_put]
        simp only [Path.compare_eq_iff_eq hp hq, eq_comm (a := p.normalize)]
        rw [← stampAll_records (c.records, ∅) hds hq]
        rfl
      · intro q hq
        rw [PathMap.getElem?_put]
        simp only [Path.compare_eq_iff_eq hp hq, eq_comm (a := p.normalize)]
        rfl

/-- A store fails only if the file cannot be hashed. -/
lemma exists_store (h : (currentDigest? tree p.normalize).isSome) :
    ∃ c', c.store tree now p output reported metadata = .ok c' := by
  obtain ⟨digest, hdigest⟩ := Option.isSome_iff_exists.1 h
  obtain ⟨r, hfile, -⟩ := FileRecord.exists_ofFile hdigest
  rw [store]
  simp only [hfile]
  exact ⟨_, rfl⟩

/-- The dependencies of every entry are in normal form. -/
def Normal (c : Cache) : Prop :=
  ∀ (p : Path) (e : CacheEntry), p.normalize = p → c.entries[p]? = some e → ∀ d ∈ e.dependencies,
    d.normalize = d

lemma Normal.store (h : c.Normal)
    (hstore : c.store tree now p output reported metadata = .ok c') : c'.Normal := by
  obtain ⟨e, hstored⟩ := exists_stored hstore
  intro q e' hq hentry d hd
  rw [hstored.entries q hq] at hentry
  split_ifs at hentry
  · cases hentry
    rw [hstored.dependencies_eq] at hd
    exact Path.normalize_of_mem_map hd
  · exact h q e' hq hentry d hd

/-! ## Staying and becoming fresh -/

/-- There is a record of the file, and it is not what the file is. -/
def Behind (c : Cache) (tree : FileTree) (q : Path) : Prop :=
  ∃ r, c.records[q]? = some r ∧ currentDigest? tree q ≠ some r.digest

lemma seen_digest {records : PathMap FileRecord} {r : FileRecord}
    (h : seen tree records q = some r) :
    records[q]? = some r ∨ (records[q]? = none ∧ currentDigest? tree q = some r.digest) := by
  rw [seen] at h
  cases hrecord : records[q]? with
  | some found =>
      rw [hrecord, Option.some_or] at h
      exact Or.inl h
  | none =>
      rw [hrecord, Option.none_or] at h
      cases hfile : FileRecord.ofFile tree q with
      | ok found =>
          rw [hfile] at h
          cases h
          exact Or.inr ⟨rfl, FileRecord.ofFile_eq_ok hfile⟩
      | error err =>
          rw [hfile] at h
          cases h

/-- A file that can be hashed is seen. -/
lemma exists_seen (records : PathMap FileRecord) (h : (currentDigest? tree q).isSome) :
    ∃ r, seen tree records q = some r := by
  rw [seen]
  cases records[q]? with
  | some r => exact ⟨r, rfl⟩
  | none =>
      obtain ⟨digest, hdigest⟩ := Option.isSome_iff_exists.1 h
      obtain ⟨r, hfile, -⟩ := FileRecord.exists_ofFile hdigest
      rw [hfile]
      exact ⟨r, rfl⟩

namespace Stored

variable {ds : List Path}

/-- A stamp is what the file was when it was stamped, exactly when the record was not behind. -/
lemma stamp_eq_iff (h : c.Stored tree p output ds metadata c' e) {stamp : Digest}
    (hd : d.normalize = d) (hstamp : e.dependencyDigests[d]? = some stamp) :
    currentDigest? tree d = some stamp ↔ ¬c.Behind tree d := by
  rw [h.stamps d hd] at hstamp
  split_ifs at hstamp with hmem
  obtain ⟨r, hseen, rfl⟩ := Option.map_eq_some_iff.1 hstamp
  rcases seen_digest hseen with hrecord | ⟨hnone, hnow⟩
  · constructor
    · rintro hnow ⟨r', hrecord', hne⟩
      cases hrecord.symm.trans hrecord'
      exact hne hnow
    · intro hbehind
      by_contra hne
      exact hbehind ⟨r, hrecord, hne⟩
  · refine ⟨?_, fun _ => hnow⟩
    rintro - ⟨r', hrecord', -⟩
    cases hnone.symm.trans hrecord'

/-- If a stored entry is fresh while the files are as they were, no dependency was behind. -/
lemma not_behind_of_fresh (h : c.Stored tree p output ds metadata c' e) {c₂ : Cache}
    {tree₂ : FileTree} (hfresh : c₂.Fresh tree₂ p e) (hds : ∀ d ∈ ds, d.normalize = d)
    (hsame : ∀ d ∈ ds, currentDigest? tree₂ d = currentDigest? tree d) :
    ∀ d ∈ ds, ¬c.Behind tree d := by
  intro d hd
  obtain ⟨r, -, hstamp, hnow⟩ := hfresh.dependencies d (h.dependencies_eq.symm ▸ hd)
  refine (h.stamp_eq_iff (hds d hd) hstamp).1 ?_
  rw [← hsame d hd]
  exact hnow

/-- A record that is behind stays so until its own file is stored, and no record falls behind. -/
lemma behind_iff (h : c.Stored tree p output ds metadata c' e) (hq : q.normalize = q) :
    c'.Behind tree q ↔ c.Behind tree q ∧ q ≠ p := by
  obtain ⟨r, hfile, hrecords⟩ := h.record
  rw [Behind]
  rw [hrecords q hq]
  by_cases hqp : q = p
  · rw [if_pos hqp]
    simp only [hqp, not_true_eq_false, ne_eq, and_false, iff_false, not_exists, not_and, not_not]
    intro r' hr'
    cases hr'
    exact FileRecord.ofFile_eq_ok hfile
  · rw [if_neg hqp, and_iff_left hqp]
    split_ifs with hmem
    · constructor
      · rintro ⟨r', hseen, hne⟩
        rcases seen_digest hseen with hrecord | ⟨-, hnow⟩
        · exact ⟨r', hrecord, hne⟩
        · exact absurd hnow hne
      · rintro ⟨r', hrecord, hne⟩
        exact ⟨r', seen_of_record hrecord, hne⟩
    · rfl

/-- A record that says what the file is says so after a store too. -/
lemma current (h : c.Stored tree p output ds metadata c' e) (hq : q.normalize = q)
    {digest : Digest} (hnow : currentDigest? tree q = some digest)
    (hrecord : ∃ r, c.records[q]? = some r ∧ r.digest = digest) :
    ∃ r, c'.records[q]? = some r ∧ r.digest = digest := by
  obtain ⟨r, hr, hdigest⟩ := hrecord
  obtain ⟨s, hfile, hrecords⟩ := h.record
  rw [hrecords q hq]
  by_cases hqp : q = p
  · rw [if_pos hqp]
    have hs := FileRecord.ofFile_eq_ok hfile
    rw [← hqp, hnow] at hs
    exact ⟨s, rfl, (Option.some.inj hs).symm⟩
  · rw [if_neg hqp]
    split_ifs with hmem
    · exact ⟨r, seen_of_record hr, hdigest⟩
    · exact ⟨r, hr, hdigest⟩

/-- Storing another file spoils no fresh entry. -/
lemma fresh_of_ne (h : c.Stored tree p output ds metadata c' e) {e₀ : CacheEntry}
    (hfresh : c.Fresh tree q e₀) (hq : q.normalize = q) (hne : q ≠ p)
    (hds : ∀ d ∈ e₀.dependencies, d.normalize = d) : c'.Fresh tree q e₀ where
  entry := by
    rw [h.entries q hq, if_neg hne]
    exact hfresh.entry
  now := hfresh.now
  record := h.current hq hfresh.now hfresh.record
  dependencies d hd := by
    obtain ⟨r, hr, hstamp, hnow⟩ := hfresh.dependencies d hd
    obtain ⟨r', hr', hdigest⟩ := h.current (hds d hd) hnow ⟨r, hr, rfl⟩
    exact ⟨r', hr', hdigest ▸ hstamp, hdigest ▸ hnow⟩

/-- A stored entry is fresh at once if all dependencies can be hashed and none was behind. -/
lemma fresh (h : c.Stored tree p output ds metadata c' e) (hp : p.normalize = p)
    (hds : ∀ d ∈ ds, d.normalize = d) (hread : ∀ d ∈ ds, (currentDigest? tree d).isSome)
    (hbehind : ∀ d ∈ ds, ¬c.Behind tree d) : c'.Fresh tree p e := by
  obtain ⟨r, hfile, hrecords⟩ := h.record
  have hinput : r.digest = e.inputDigest :=
    Option.some.inj ((FileRecord.ofFile_eq_ok hfile).symm.trans h.now)
  refine ⟨by rw [h.entries p hp, if_pos rfl], h.now, ⟨r, by rw [hrecords p hp, if_pos rfl], hinput⟩,
    fun d hd => ?_⟩
  rw [h.dependencies_eq] at hd
  obtain ⟨s, hseen⟩ := exists_seen c.records (hread d hd)
  have hstamp : e.dependencyDigests[d]? = some s.digest := by
    rw [h.stamps d (hds d hd), if_pos hd, hseen]
    rfl
  have hnow := (h.stamp_eq_iff (hds d hd) hstamp).2 (hbehind d hd)
  rw [hrecords d (hds d hd)]
  by_cases hdp : d = p
  · rw [if_pos hdp]
    have hr := FileRecord.ofFile_eq_ok hfile
    rw [← hdp, hnow] at hr
    have hdigest : s.digest = r.digest := Option.some.inj hr
    exact ⟨r, rfl, hdigest ▸ hstamp, hdigest ▸ hnow⟩
  · rw [if_neg hdp, if_pos hd]
    exact ⟨s, hseen, hstamp, hnow⟩

end Stored
end Rebuild.Cache
