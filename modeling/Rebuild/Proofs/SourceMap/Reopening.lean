import Rebuild.Proofs.SourceMap.Lookup

/-!
# Going on from a map

A builder that goes on from a map keeps each source and each name of the map once, but takes over the
mappings with the indices that they have in the map.  Where a table of the map repeats an entry, all
later indices mean something else in the builder, or nothing at all: `ofMap_keeps_iff`.

* **Reading.**  What is read stays within the tables of the map (`within_of_decode`).
* **Repetitions.**  `getElem?_internAll_nil_iff`: an index keeps its meaning exactly if the entries
  up to it are distinct.
* **The builder.**  Its tables are those of the map, each entry once (`reopened`), and merging needs
  indices within them (`isSome_merge?_iff`).
-/

namespace Rebuild.SourceMap

/-! ## Reading -/

namespace Mapping

variable {tables : Tables} {line : UInt32} {column : Int} {cursor : Cursor}

/-- An index that is read is below the bound that was checked. -/
lemma toNat_ofNat_lt {i : Int} {bound : Nat} (h : ¬(i < 0 ∨ (bound : Int) ≤ i)) :
    (UInt32.ofNat i.toNat).toNat < bound := by
  have hle : (UInt32.ofNat i.toNat).toNat ≤ i.toNat := by
    rw [UInt32.toNat_ofNat']
    exact Nat.mod_le _ _
  omega

lemma readOrigin_within {s l k : Int64} {o : Origin} {after : Cursor}
    (h : readOrigin tables cursor s l k = .ok (o, after)) :
    o.source.toNat < tables.sources ∧ o.name = none := by
  simp only [readOrigin, bind_eq_ok_iff] at h
  obtain ⟨source, -, line, -, column, -, h⟩ := h
  split at h
  · cases h
  · rename_i hwithin
    simp only [bind_eq_ok_iff] at h
    obtain ⟨atLine, -, atColumn, -, h⟩ := h
    cases h
    exact ⟨toNat_ofNat_lt hwithin, rfl⟩

lemma readName_within {n : Int64} {i : UInt32} {after : Cursor}
    (h : readName tables cursor n = .ok (i, after)) : i.toNat < tables.names := by
  simp only [readName, bind_eq_ok_iff] at h
  obtain ⟨next, -, h⟩ := h
  split at h
  · cases h
  · rename_i hwithin
    cases h
    exact toNat_ofNat_lt hwithin

lemma ofFields_within {numbers : List Int64} {m : Mapping} {next : Int} {after : Cursor}
    (h : ofFields tables line column cursor numbers = .ok (m, next, after)) : m.Within tables := by
  rw [ofFields.eq_def] at h
  split at h
  · simp only [bind_eq_ok_iff] at h
    obtain ⟨_, -, atColumn, -, h⟩ := h
    cases h
    intro o ho
    cases ho
  · simp only [bind_eq_ok_iff] at h
    obtain ⟨_, -, atColumn, -, ⟨origin, _⟩, horigin, h⟩ := h
    cases h
    rintro o ⟨rfl⟩
    obtain ⟨hsource, hname⟩ := readOrigin_within horigin
    refine ⟨hsource, fun n hn => ?_⟩
    rw [hname] at hn
    cases hn
  · simp only [bind_eq_ok_iff] at h
    obtain ⟨_, -, atColumn, -, ⟨origin, _⟩, horigin, ⟨name, _⟩, hname, h⟩ := h
    cases h
    rintro o ⟨rfl⟩
    refine ⟨(readOrigin_within horigin).1, ?_⟩
    rintro n ⟨rfl⟩
    exact readName_within hname
  · cases h

lemma decodeLine_within {segments : List (List Char)} {ms : List Mapping} {after : Cursor}
    (h : decodeLine tables line column cursor segments = .ok (ms, after)) :
    ∀ m ∈ ms, m.Within tables := by
  induction segments generalizing column cursor ms after with
  | nil =>
      cases h
      exact List.forall_mem_nil _
  | cons segment segments ih =>
      cases segment with
      | nil => exact ih h
      | cons c cs =>
          simp only [decodeLine, bind_eq_ok_iff] at h
          obtain ⟨numbers, -, ⟨m, _, _⟩, hfields, ⟨rest, _⟩, hrest, h⟩ := h
          cases h
          exact List.forall_mem_cons.2 ⟨ofFields_within hfields, ih hrest⟩

lemma decodeLines_within {texts : List (List Char)} {ms : List Mapping}
    (h : decodeLines tables line cursor texts = .ok ms) : ∀ m ∈ ms, m.Within tables := by
  induction texts generalizing line cursor ms with
  | nil =>
      cases h
      exact List.forall_mem_nil _
  | cons text texts ih =>
      simp only [decodeLines, bind_eq_ok_iff] at h
      obtain ⟨⟨first, _⟩, hfirst, rest, hrest, h⟩ := h
      cases h
      exact List.forall_mem_append.2 ⟨decodeLine_within hfirst, ih hrest⟩

end Mapping

/-- **What is read stays within the tables.** -/
theorem within_of_decode {map : SourceMap} {ms : List Mapping} (h : map.decode = .ok ms) :
    ∀ m ∈ ms, m.Within ⟨map.sources.length, map.names.length⟩ := Mapping.decodeLines_within h

/-! ## Repetitions -/

section

variable {table xs : List String} {i : Nat}

lemma internAll_append (table xs ys : List String) :
    (internAll table (xs ++ ys)).1 = (internAll (internAll table xs).1 ys).1 := by
  induction xs generalizing table with
  | nil => rfl
  | cons x xs ih => exact ih (intern table x).1

/-- Names that are all new go to the end as they are. -/
lemma internAll_of_nodup (h : (table ++ xs).Nodup) : (internAll table xs).1 = table ++ xs := by
  induction xs generalizing table with
  | nil => exact (List.append_nil table).symm
  | cons x xs ih =>
      have hnew : x ∉ table := fun hx => List.disjoint_of_nodup_append h hx List.mem_cons_self
      have hintern : (intern table x).1 = table ++ [x] := by
        rcases intern_cases table x with ⟨i, hi, -⟩ | ⟨-, hintern⟩
        · exact absurd (List.mem_of_getElem? hi) hnew
        · rw [hintern]
      rw [List.append_cons] at h ⊢
      rw [internAll]
      simp only [hintern]
      exact ih h

/-- An entry keeps its index when repetitions go, exactly if there are none up to it. -/
lemma getElem?_internAll_nil_iff (hi : i < xs.length) :
    (internAll [] xs).1[i]? = xs[i]? ↔ (xs.take (i + 1)).Nodup := by
  have hlists := lists_nil.internAll xs
  have hstart := lists_nil.internAll (xs.take (i + 1))
  have hgrown : (internAll [] (xs.take (i + 1))).1 <+: (internAll [] xs).1 := by
    have happend := internAll_append [] (xs.take (i + 1)) (xs.drop (i + 1))
    rw [List.take_append_drop] at happend
    rw [happend]
    exact prefix_internAll _ _
  have hlast : (xs.take (i + 1))[i]? = some xs[i] := by
    rw [List.getElem?_take_of_lt (Nat.lt_succ_self i), List.getElem?_eq_getElem hi]
  rw [List.getElem?_eq_getElem hi]
  constructor
  · intro h
    -- The entry is in the shorter table too, and there is only one place for it.
    have hmem : xs[i] ∈ (internAll [] (xs.take (i + 1))).1 := by
      rw [hstart.2, Finset.empty_union, List.mem_toFinset]
      exact List.mem_of_getElem? hlast
    obtain ⟨j, hj⟩ := List.getElem?_of_mem hmem
    obtain ⟨hlt, -⟩ := List.getElem?_eq_some_iff.1 (getElem?_of_grown hgrown hj)
    have hij : j = i := (List.getElem?_inj hlt hlists.1).1 ((getElem?_of_grown hgrown hj).trans h.symm)
    obtain ⟨hshort, -⟩ := List.getElem?_eq_some_iff.1 hj
    rw [hstart.length_eq, Finset.empty_union, List.card_toFinset, hij] at hshort
    have hlength : (xs.take (i + 1)).length = i + 1 := List.length_take_of_le hi
    have hsub := List.dedup_sublist (xs.take (i + 1))
    have heq := hsub.eq_of_length_le (by omega)
    rw [← heq]
    exact List.nodup_dedup _
  · intro h
    refine getElem?_of_grown hgrown ?_
    rw [internAll_of_nodup h, List.nil_append, hlast]

end

/-! ## Meanings -/

section

variable {map : SourceMap} {sources names : List String} {m : Mapping}

/-- The entries of the map that the mapping refers to, and all before them, are distinct. -/
def Mapping.Unrepeated (map : SourceMap) (m : Mapping) : Prop :=
  ∀ o ∈ m.origin, (map.sources.take (o.source.toNat + 1)).Nodup
    ∧ ∀ n ∈ o.name, (map.names.take (n.toNat + 1)).Nodup

/-- Two tables give a mapping the same meaning exactly if they agree where it refers to them. -/
lemma Mapping.link?_eq_iff (h : m.Within ⟨map.sources.length, map.names.length⟩) :
    m.link? sources names = m.link? map.sources map.names ↔ ∀ o ∈ m.origin,
      sources[o.source.toNat]? = map.sources[o.source.toNat]?
        ∧ ∀ n ∈ o.name, names[n.toNat]? = map.names[n.toNat]? := by
  obtain ⟨line, column, origin⟩ := m
  cases origin with
  | none => simp [link?]
  | some o =>
      obtain ⟨hsource, hname⟩ := h o rfl
      obtain ⟨source, atLine, atColumn, name⟩ := o
      have hfound := List.getElem?_eq_getElem hsource
      cases name with
      | none => simp [link?, Origin.place?, hfound, Option.bind_eq_some_iff]
      | some n =>
          have hspelled := List.getElem?_eq_getElem (hname n rfl)
          simp [link?, Origin.place?, hfound, hspelled, Option.bind_eq_some_iff]

/-- A mapping keeps its meaning in the tables without repetitions exactly if there are none up to
what it refers to. -/
lemma Mapping.link?_internAll_iff (h : m.Within ⟨map.sources.length, map.names.length⟩) :
    m.link? (internAll [] map.sources).1 (internAll [] map.names).1
      = m.link? map.sources map.names ↔ m.Unrepeated map := by
  rw [link?_eq_iff h]
  refine forall₂_congr fun o ho => ?_
  obtain ⟨hsource, hname⟩ := h o ho
  exact and_congr (getElem?_internAll_nil_iff hsource)
    (forall₂_congr fun n hn => getElem?_internAll_nil_iff (hname n hn))

end

/-! ## The builder -/

namespace Builder

lemma foldl_eq_addAll (add : Builder → String → Builder × UInt32) (b : Builder) (names : List String) :
    names.foldl (fun b name => (add b name).1) b = (addAll add b names).1 := by
  induction names generalizing b with
  | nil => rfl
  | cons name names ih => exact ih (add b name).1

lemma map_fst_withContents (sources : List String) (texts : List (Option String)) :
    (withContents sources texts).map Prod.fst = sources := by
  induction sources generalizing texts with
  | nil => rfl
  | cons source sources ih =>
      cases texts with
      | nil => exact congrArg (source :: ·) (ih [])
      | cons text texts => exact congrArg (source :: ·) (ih texts)

lemma sourceNames_addWithContent (b : Builder) (source : String) (content : Option String) :
    (b.addWithContent source content).sourceNames = (intern b.sourceNames source).1 := by
  cases content with
  | none => exact b.sourceNames_addSource source
  | some text => exact b.sourceNames_setContent source text

lemma names_addWithContent (b : Builder) (source : String) (content : Option String) :
    (b.addWithContent source content).names = b.names := by
  cases content with
  | none => exact b.names_addSource source
  | some text => exact b.names_addSource source

/-- All sources added, each with its text. -/
def addSources (b : Builder) (entries : List (String × Option String)) : Builder :=
  entries.foldl (fun b (source, content) => b.addWithContent source content) b

lemma sourceNames_addSources (b : Builder) (entries : List (String × Option String)) :
    (b.addSources entries).sourceNames = (internAll b.sourceNames (entries.map Prod.fst)).1 := by
  induction entries generalizing b with
  | nil => rfl
  | cons entry entries ih =>
      rw [addSources, List.foldl_cons, List.map_cons, internAll]
      simp only [← sourceNames_addWithContent b entry.1 entry.2]
      exact ih _

lemma names_addSources (b : Builder) (entries : List (String × Option String)) :
    (b.addSources entries).names = b.names := by
  induction entries generalizing b with
  | nil => rfl
  | cons entry entries ih => exact (ih _).trans (b.names_addWithContent entry.1 entry.2)

/-- The builder with the tables of a map, each entry once. -/
def reopened (map : SourceMap) : Builder :=
  (addAll addName (addSources { file := map.file, sourceRoot := map.sourceRoot }
    (withContents map.sources (map.contents.getD []))) map.names).1

/-- Going on from a map takes over its mappings as they are. -/
lemma ofMap_eq {map : SourceMap} {ms : List Mapping} (h : map.decode = .ok ms) :
    ofMap map = .ok { reopened map with mappings := ms } := by
  rw [reopened, ← foldl_eq_addAll, ofMap, h]
  rfl

lemma sourceNames_reopened (map : SourceMap) :
    (reopened map).sourceNames = (internAll [] map.sources).1 := by
  rw [reopened, addAll_kept (f := sourceNames) sourceNames_addName, sourceNames_addSources,
    map_fst_withContents]
  rfl

lemma names_reopened (map : SourceMap) : (reopened map).names = (internAll [] map.names).1 := by
  have hnames := congrArg Prod.fst (addAll_eq addName_eq
    (addSources { file := map.file, sourceRoot := map.sourceRoot }
      (withContents map.sources (map.contents.getD []))) map.names)
  rw [names_addSources] at hnames
  exact hnames

/-- A mapping can be moved exactly if it stays within the tables. -/
lemma isSome_moveMapping?_iff {sources names : List UInt32} {offset : UInt32} {m : Mapping} :
    (moveMapping? sources names offset m).isSome ↔ m.Within ⟨sources.length, names.length⟩ := by
  obtain ⟨line, column, origin⟩ := m
  cases origin with
  | none => simp [moveMapping?, Mapping.Within]
  | some o =>
      obtain ⟨source, atLine, atColumn, name⟩ := o
      cases name with
      | none =>
          simp [moveMapping?, moveOrigin?, Mapping.Within, Option.isSome_iff_exists,
            Option.bind_eq_some_iff, exists_getElem?_iff]
      | some n =>
          simp [moveMapping?, moveOrigin?, Mapping.Within, Option.isSome_iff_exists,
            Option.bind_eq_some_iff, exists_getElem?_iff]

lemma isSome_mapM_iff {α β : Type} {f : α → Option β} {xs : List α} :
    (xs.mapM f).isSome ↔ ∀ x ∈ xs, (f x).isSome := by
  induction xs with
  | nil => simp
  | cons x xs ih =>
      rw [List.forall_mem_cons, ← ih, List.mapM_cons]
      cases f x <;> cases xs.mapM f <;> simp

/-- Merging succeeds exactly if no mapping goes beyond the tables. -/
lemma isSome_merge?_iff (b other : Builder) (offset : UInt32) : (b.merge? other offset).isSome ↔
    ∀ m ∈ other.mappings, m.Within ⟨other.sourceNames.length, other.names.length⟩ := by
  rw [merge?_eq, Option.isSome_map, isSome_mapM_iff]
  simp only [isSome_moveMapping?_iff, length_internAll]

/-- A map can be written and read again exactly if no mapping goes beyond the tables. -/
lemma decode_toMap_iff (b : Builder) : b.toMap.decode = .ok (Mapping.sort b.mappings).eraseReps ↔
    ∀ m ∈ b.mappings, m.Within ⟨b.sourceNames.length, b.names.length⟩ :=
  ⟨fun h m hm => within_of_decode h m (Mapping.mem_eraseReps_sort.2 hm), decode_toMap⟩

/-- **Going on from a map.**  The builder takes over every mapping.  A mapping keeps its meaning
exactly if no source and no name is repeated up to what it refers to, and then stays within the
tables.  If all do, and only then, the builder can be merged, and its map written and read again. -/
theorem ofMap_keeps_iff {map : SourceMap} {ms : List Mapping} (h : map.decode = .ok ms) :
    ∃ b, ofMap map = .ok b ∧ b.mappings = ms
      ∧ (∀ m ∈ ms, m.link? b.sourceNames b.names = m.link? map.sources map.names ↔ m.Unrepeated map)
      ∧ (∀ m ∈ ms, m.Unrepeated map → m.Within ⟨b.sourceNames.length, b.names.length⟩)
      ∧ (∀ b' offset, (merge? b' b offset).isSome ↔
        ∀ m ∈ ms, m.Within ⟨b.sourceNames.length, b.names.length⟩)
      ∧ (b.toMap.decode = .ok (Mapping.sort ms).eraseReps ↔
        ∀ m ∈ ms, m.Within ⟨b.sourceNames.length, b.names.length⟩) := by
  have hwithin := within_of_decode h
  have hkeeps : ∀ m ∈ ms, m.link? (reopened map).sourceNames (reopened map).names
      = m.link? map.sources map.names ↔ m.Unrepeated map := by
    intro m hm
    rw [sourceNames_reopened, names_reopened]
    exact Mapping.link?_internAll_iff (hwithin m hm)
  refine ⟨_, ofMap_eq h, rfl, hkeeps, fun m hm hunrepeated => ?_,
    fun b' offset => isSome_merge?_iff b' _ offset, decode_toMap_iff _⟩
  obtain ⟨l, hl⟩ := Mapping.exists_link?_iff.2 (hwithin m hm)
  exact Mapping.exists_link?_iff.1 ⟨l, ((hkeeps m hm).2 hunrepeated).trans hl⟩

/-- A map whose last source repeats the first one. -/
def returning : SourceMap := { sources := ["a", "b", "a"], names := [], mappings := "ACAA" }

/-- Going on from it, the mapping to its second source still leads there. -/
theorem ofMap_keeps_iff_returning : ∃ b m, ofMap returning = .ok b ∧ b.mappings = [m]
    ∧ m.link? b.sourceNames b.names = some ⟨0, 0, some ⟨"b", 0, 0, none⟩⟩
    ∧ b.toMap.decode = .ok [m] := by
  have hdecode : returning.decode = .ok [⟨0, 0, some ⟨1, 0, 0, none⟩⟩] := by decide
  obtain ⟨b, hb, hmappings, hkeeps, hwithin, -, hwritten⟩ := ofMap_keeps_iff hdecode
  have hunrepeated : Mapping.Unrepeated returning ⟨0, 0, some ⟨1, 0, 0, none⟩⟩ := by
    rintro o ⟨rfl⟩
    exact ⟨by decide, fun n hn => by cases hn⟩
  refine ⟨b, _, hb, hmappings, ?_, ?_⟩
  · exact (hkeeps _ List.mem_cons_self).2 hunrepeated
  · rw [Mapping.sort, List.mergeSort_singleton] at hwritten
    refine hwritten.2 fun m hm => hwithin m hm ?_
    rw [List.mem_singleton.1 hm]
    exact hunrepeated

/-- A map whose second source repeats the first one. -/
def repeating : SourceMap := { sources := ["a", "a", "b"], names := [], mappings := "ACAA" }

/-- Where a source is repeated, a mapping can lead to another one. -/
theorem not_ofMap_keeps : ¬∀ (map : SourceMap) (ms : List Mapping), map.decode = .ok ms →
    ∃ b, ofMap map = .ok b ∧ ∀ m ∈ ms,
      m.link? b.sourceNames b.names = m.link? map.sources map.names := by
  intro h
  have hdecode : repeating.decode = .ok [⟨0, 0, some ⟨1, 0, 0, none⟩⟩] := by decide
  obtain ⟨b, hb, hkeeps⟩ := h repeating _ hdecode
  rw [ofMap_eq hdecode] at hb
  cases hb
  have hbefore : Mapping.link? repeating.sources repeating.names ⟨0, 0, some ⟨1, 0, 0, none⟩⟩
      = some ⟨0, 0, some ⟨"a", 0, 0, none⟩⟩ := by decide
  have hafter : Mapping.link? (reopened repeating).sourceNames (reopened repeating).names
      ⟨0, 0, some ⟨1, 0, 0, none⟩⟩ = some ⟨0, 0, some ⟨"b", 0, 0, none⟩⟩ := by decide
  have hsame := hafter.symm.trans ((hkeeps _ List.mem_cons_self).trans hbefore)
  revert hsame
  decide

end Builder

end Rebuild.SourceMap
