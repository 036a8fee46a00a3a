import Rebuild.Proofs.SourceMap.Reopening

/-!
# Sound builders

A builder keeps nothing twice in its tables, and its mappings stay within them.  This holds of every
builder that can be made, however many sources and names it mentions: an index that is cut off to 32
bits is still below the length of its table.

* **Tables.**  An index that interning answers is one of the table (`index_intern_lt`).
* **Steps.**  Each function of the builder keeps it sound, and merging with a sound builder succeeds
  (`Sound.exists_merge`).
* **Endpoint.**  `exists_sound`, by induction on the construction.
-/

namespace Rebuild.SourceMap

/-! ## Tables -/

section

variable {table : List String} {name : String}

/-- The index is below the length of the table, whether or not it was cut off. -/
lemma index_intern_lt (table : List String) (name : String) :
    (intern table name).2.toNat < (intern table name).1.length := by
  have hcut : ∀ i : Nat, (UInt32.ofNat i).toNat ≤ i := by
    intro i
    rw [UInt32.toNat_ofNat']
    exact Nat.mod_le _ _
  rcases intern_cases table name with ⟨i, hi, h⟩ | ⟨-, h⟩
  · obtain ⟨hlt, -⟩ := List.getElem?_eq_some_iff.1 hi
    rw [h]
    exact (hcut i).trans_lt hlt
  · rw [h]
    simpa [Nat.lt_succ_iff] using hcut table.length

lemma index_internAll_lt (table names : List String) :
    ∀ i ∈ (internAll table names).2, i.toNat < (internAll table names).1.length := by
  induction names generalizing table with
  | nil => simp [internAll]
  | cons name names ih =>
      have hfirst := index_intern_lt table name
      have hgrown := (prefix_internAll (intern table name).1 names).length_le
      simp only [internAll, List.forall_mem_cons]
      exact ⟨hfirst.trans_le hgrown, ih _⟩

lemma lists_toFinset (h : table.Nodup) : Lists table table.toFinset := ⟨h, by simp⟩

lemma nodup_intern (h : table.Nodup) (name : String) : (intern table name).1.Nodup :=
  ((lists_toFinset h).intern name).1

lemma nodup_internAll (h : table.Nodup) (names : List String) : (internAll table names).1.Nodup :=
  ((lists_toFinset h).internAll names).1

end

/-- A mapping stays within longer tables. -/
lemma Mapping.Within.mono {m : Mapping} {tables tables' : Tables} (h : m.Within tables)
    (hsources : tables.sources ≤ tables'.sources) (hnames : tables.names ≤ tables'.names) :
    m.Within tables' := by
  intro o ho
  obtain ⟨hsource, hname⟩ := h o ho
  exact ⟨hsource.trans_le hsources, fun n hn => (hname n hn).trans_le hnames⟩

namespace Builder

/-- The lengths of the tables. -/
def tables (b : Builder) : Mapping.Tables := ⟨b.sourceNames.length, b.names.length⟩

/-- Nothing is in a table twice, and no mapping refers beyond the tables. -/
structure Sound (b : Builder) : Prop where
  sources : b.sourceNames.Nodup
  names : b.names.Nodup
  within : ∀ m ∈ b.mappings, m.Within b.tables

/-! ## Steps -/

section

variable {b b' : Builder}

/-- The mappings of a sound builder stay where they are while its tables grow. -/
lemma Sound.within_grown (h : b.Sound) (hsources : b.sourceNames <+: b'.sourceNames)
    (hnames : b.names <+: b'.names) : ∀ m ∈ b.mappings, m.Within b'.tables :=
  fun m hm => (h.within m hm).mono hsources.length_le hnames.length_le

lemma Sound.source (h : b.Sound) (s : String) : (b.addSource s).1.Sound where
  sources := by
    rw [sourceNames_addSource]
    exact nodup_intern h.sources s
  names := by
    rw [names_addSource]
    exact h.names
  within := by
    rw [mappings_addSource]
    exact h.within_grown (by simp [prefix_intern]) (by simp)

lemma Sound.name (h : b.Sound) (n : String) : (b.addName n).1.Sound where
  sources := by
    rw [sourceNames_addName]
    exact h.sources
  names := by
    rw [names_addName]
    exact nodup_intern h.names n
  within := by
    rw [mappings_addName]
    exact h.within_grown (by simp) (by simp [prefix_intern])

/-- A text is put beside a source that is there. -/
lemma Sound.content (h : b.Sound) (s text : String) : (b.setContent s text).Sound := by
  have hadded := h.source s
  have hsources : (b.setContent s text).sourceNames = (b.addSource s).1.sourceNames :=
    (b.sourceNames_setContent s text).trans (b.sourceNames_addSource s).symm
  refine ⟨hsources ▸ hadded.sources, hadded.names, fun m hm => ?_⟩
  rw [tables, hsources]
  exact hadded.within m hm

/-- More mappings within the tables keep a builder sound. -/
lemma Sound.append {ms : List Mapping} (h : b.Sound) (hms : ∀ m ∈ ms, m.Within b.tables) :
    { b with mappings := b.mappings ++ ms }.Sound where
  sources := h.sources
  names := h.names
  within := List.forall_mem_append.2 ⟨h.within, hms⟩

lemma Sound.link (h : b.Sound) (l : Link) : (b.addLink l).Sound := by
  obtain ⟨line, column, place⟩ := l
  cases place with
  | none => exact h.append (by simp [Mapping.Within])
  | some p =>
      obtain ⟨s, atLine, atColumn, spelling⟩ := p
      have hadded := h.source s
      have hindex := index_intern_lt b.sourceNames s
      rw [← index_addSource, ← sourceNames_addSource] at hindex
      cases spelling with
      | none =>
          refine hadded.append (List.forall_mem_singleton.2 ?_)
          rintro o ⟨rfl⟩
          exact ⟨hindex, fun n hn => by cases hn⟩
      | some n =>
          have hspelled := index_intern_lt (b.addSource s).1.names n
          rw [← index_addName, ← names_addName] at hspelled
          rw [← sourceNames_addName (b.addSource s).1 n] at hindex
          refine (hadded.name n).append (List.forall_mem_singleton.2 ?_)
          rintro o ⟨rfl⟩
          refine ⟨hindex, ?_⟩
          rintro i ⟨rfl⟩
          exact hspelled

/-- What is moved to other tables stays within them. -/
lemma within_of_moveMapping? {sources names : List UInt32} {offset : UInt32} {m moved : Mapping}
    {target : Mapping.Tables} (hsources : ∀ i ∈ sources, i.toNat < target.sources)
    (hnames : ∀ i ∈ names, i.toNat < target.names)
    (h : moveMapping? sources names offset m = some moved) : moved.Within target := by
  obtain ⟨line, column, origin⟩ := m
  cases origin with
  | none =>
      cases h
      simp [Mapping.Within]
  | some o =>
      obtain ⟨source, atLine, atColumn, name⟩ := o
      cases name with
      | none =>
          simp only [moveMapping?, moveOrigin?, Option.bind_eq_bind, Option.map_eq_some_iff,
            Option.bind_eq_some_iff, Option.pure_def, Option.some.injEq] at h
          obtain ⟨_, ⟨i, hi, rfl⟩, rfl⟩ := h
          rintro _ ⟨rfl⟩
          exact ⟨hsources i (List.mem_of_getElem? hi), fun n hn => by cases hn⟩
      | some n =>
          simp only [moveMapping?, moveOrigin?, Option.bind_eq_bind, Option.map_eq_some_iff,
            Option.bind_eq_some_iff, Option.pure_def, Option.some.injEq] at h
          obtain ⟨_, ⟨i, hi, j, hj, rfl⟩, rfl⟩ := h
          rintro _ ⟨rfl⟩
          refine ⟨hsources i (List.mem_of_getElem? hi), ?_⟩
          rintro _ ⟨rfl⟩
          exact hnames j (List.mem_of_getElem? hj)

lemma forall₂_of_mapM {α β : Type} {f : α → Option β} {xs : List α} {ys : List β}
    (h : xs.mapM f = some ys) : List.Forall₂ (fun x y => f x = some y) xs ys := by
  induction xs generalizing ys with
  | nil =>
      cases h
      exact .nil
  | cons x xs ih =>
      simp only [List.mapM_cons, Option.bind_eq_bind, Option.bind_eq_some_iff] at h
      obtain ⟨first, hfirst, rest, hrest, hys⟩ := h
      cases hys
      exact .cons hfirst (ih hrest)

/-- All that is moved stays within the tables. -/
lemma within_of_moved {sources names : List UInt32} {offset : UInt32} {ms moved : List Mapping}
    {target : Mapping.Tables} (hsources : ∀ i ∈ sources, i.toNat < target.sources)
    (hnames : ∀ i ∈ names, i.toNat < target.names)
    (h : ms.mapM (moveMapping? sources names offset) = some moved) :
    ∀ m ∈ moved, m.Within target := by
  have hmoves := forall₂_of_mapM h
  clear h
  induction hmoves with
  | nil => exact List.forall_mem_nil _
  | cons hfirst _ ih =>
      exact List.forall_mem_cons.2 ⟨within_of_moveMapping? hsources hnames hfirst, ih⟩

/-- Merging adds to the tables, keeps the mappings, and appends others. -/
lemma exists_of_merge? {merged : Builder} {offset : UInt32} (h : b.merge? b' offset = some merged) :
    ∃ moved, b'.mappings.mapM (moveMapping? (internAll b.sourceNames b'.sourceNames).2
        (internAll b.names b'.names).2 offset) = some moved
      ∧ merged = { b.withTables b' with mappings := b.mappings ++ moved } := by
  rw [merge?_eq, Option.map_eq_some_iff] at h
  obtain ⟨moved, hmoved, rfl⟩ := h
  exact ⟨moved, hmoved, rfl⟩

/-- More entries in the tables keep a builder sound. -/
lemma Sound.withTables (h : b.Sound) (b' : Builder) : (b.withTables b').Sound where
  sources := by
    rw [sourceNames_withTables]
    exact nodup_internAll h.sources _
  names := by
    rw [names_withTables]
    exact nodup_internAll h.names _
  within := by
    rw [mappings_withTables]
    refine h.within_grown ?_ ?_
    · rw [sourceNames_withTables]
      exact prefix_internAll _ _
    · rw [names_withTables]
      exact prefix_internAll _ _

/-- Sound builders can be merged, and stay sound. -/
lemma Sound.exists_merge (h : b.Sound) (h' : b'.Sound) (offset : UInt32) :
    ∃ merged, b.merge? b' offset = some merged ∧ merged.Sound := by
  obtain ⟨merged, hmerged⟩ := Option.isSome_iff_exists.1 ((isSome_merge?_iff b b' offset).2 h'.within)
  obtain ⟨moved, hmoved, rfl⟩ := exists_of_merge? hmerged
  refine ⟨_, hmerged, ?_⟩
  rw [← mappings_withTables b b']
  refine (h.withTables b').append (within_of_moved ?_ ?_ hmoved)
  · rw [tables, sourceNames_withTables]
    exact index_internAll_lt _ _
  · rw [tables, names_withTables]
    exact index_internAll_lt _ _

end

end Builder

/-! ## Constructions -/

/-- **Every builder is sound.**  Each construction makes a builder, and a sound one. -/
theorem Construction.exists_sound : ∀ c : Construction, ∃ b, c.builder? = some b ∧ b.Sound
  | .start file => ⟨{ file }, rfl, List.nodup_nil, List.nodup_nil, List.forall_mem_nil _⟩
  | .rooted c dir => by
      obtain ⟨b, hb, h⟩ := exists_sound c
      exact ⟨{ b with sourceRoot := some dir }, by simp [builder?, hb], h.sources, h.names, h.within⟩
  | .source c s => by
      obtain ⟨b, hb, h⟩ := exists_sound c
      exact ⟨_, by simp [builder?, hb], h.source s⟩
  | .name c n => by
      obtain ⟨b, hb, h⟩ := exists_sound c
      exact ⟨_, by simp [builder?, hb], h.name n⟩
  | .content c s text => by
      obtain ⟨b, hb, h⟩ := exists_sound c
      exact ⟨_, by simp [builder?, hb], h.content s text⟩
  | .link c l => by
      obtain ⟨b, hb, h⟩ := exists_sound c
      exact ⟨_, by simp [builder?, hb], h.link l⟩
  | .merged c other offset => by
      obtain ⟨b, hb, h⟩ := exists_sound c
      obtain ⟨b', hb', h'⟩ := exists_sound other
      obtain ⟨merged, hmerged, hsound⟩ := h.exists_merge h' offset
      exact ⟨merged, by simp [builder?, hb, hb', hmerged], hsound⟩

end Rebuild.SourceMap
