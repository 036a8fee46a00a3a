import Rebuild.Proofs.SourceMap.Sound

/-!
# Merging builders

Merging appends the sources, the names and the mappings of one builder to those of another one.  What
either builder says is said by the merged one, and the order of several mergings does not matter.

* **Tables.**  What is in both tables is listed once, at its first place, with the first text that is
  known (`joinSources`, `textOf_joinSources`).  Joining is associative (`joinSources_assoc`).
* **The merged builder.**  `exists_eq_of_merge?` says what it is, up to the mappings that are moved.
* **Meanings.**  `exists_merge_joins`: what holds of every two builders, and what holds if indices of
  32 bits are enough to number their sources and names.
* **Associativity.**  Where nothing is listed twice, a mapping is determined by what it says
  (`eq_of_link?`), so builders with the same tables that say the same are the same:
  `builder?_merged_assoc`.
-/

namespace Rebuild.SourceMap

/-! ## Joining tables -/

/-- The first text that is known of a source. -/
def textOf (sources : List Source) (name : String) : Option String :=
  sources.findSome? fun s => if s.name = name then s.content else none

/-- The source with its text or, where it has none, with the one known to others. -/
def Source.filledFrom (others : List Source) (s : Source) : Source :=
  { s with content := s.content.or (textOf others s.name) }

/-- The first sources, filled from the others, and then those of the others that are new. -/
def joinSources (xs ys : List Source) : List Source :=
  xs.map (Source.filledFrom ys) ++ ys.filter fun s => s.name ∉ xs.map Source.name

/-- The first names, and then those of the others that are new. -/
def joinNames (xs ys : List String) : List String := xs ++ ys.filter (· ∉ xs)

section

variable {xs ys zs : List Source} {name : String}

lemma textOf_append (xs ys : List Source) (name : String) :
    textOf (xs ++ ys) name = (textOf xs name).or (textOf ys name) := List.findSome?_append

lemma textOf_cons (s : Source) (xs : List Source) (name : String) :
    textOf (s :: xs) name = if s.name = name then s.content.or (textOf xs name) else textOf xs name := by
  have htail := textOf_append [s] xs name
  rw [List.singleton_append] at htail
  rw [htail]
  split_ifs with h <;> simp [textOf, h]

/-- A source that is not listed has no text. -/
lemma textOf_of_not_mem (h : name ∉ xs.map Source.name) : textOf xs name = none := by
  induction xs with
  | nil => rfl
  | cons x xs ih =>
      simp only [List.map_cons, List.mem_cons, not_or] at h
      obtain ⟨hne, hrest⟩ := h
      rw [textOf_cons, if_neg (Ne.symm hne), ih hrest]

/-- Where no source is listed twice, the text of one is the text that is known of it. -/
lemma textOf_of_mem (h : (xs.map Source.name).Nodup) {s : Source} (hs : s ∈ xs) :
    textOf xs s.name = s.content := by
  induction xs with
  | nil => cases hs
  | cons x xs ih =>
      simp only [List.map_cons, List.nodup_cons] at h
      obtain ⟨hnew, hrest⟩ := h
      rw [textOf_cons]
      rcases List.mem_cons.1 hs with rfl | hs
      · rw [if_pos rfl, textOf_of_not_mem hnew, Option.or_none]
      · have hne : x.name ≠ s.name := fun heq => hnew (heq ▸ List.mem_map_of_mem hs)
        rw [if_neg hne, ih hrest hs]

@[simp] lemma map_name_filledFrom (xs ys : List Source) :
    (xs.map (Source.filledFrom ys)).map Source.name = xs.map Source.name := by
  simp [Function.comp_def, Source.filledFrom]

/-- Joining sources joins their names. -/
lemma map_name_joinSources (xs ys : List Source) :
    (joinSources xs ys).map Source.name = joinNames (xs.map Source.name) (ys.map Source.name) := by
  rw [joinSources, List.map_append, map_name_filledFrom, joinNames, List.filter_map]
  rfl

/-- Filling from others fills the text. -/
lemma textOf_map_filledFrom (h : (xs.map Source.name).Nodup) (hname : name ∈ xs.map Source.name) :
    textOf (xs.map (Source.filledFrom ys)) name = (textOf xs name).or (textOf ys name) := by
  obtain ⟨s, hs, rfl⟩ := List.mem_map.1 hname
  have hfilled : (s.filledFrom ys) ∈ xs.map (Source.filledFrom ys) := List.mem_map_of_mem hs
  have hnodup : ((xs.map (Source.filledFrom ys)).map Source.name).Nodup := by
    rw [map_name_filledFrom]
    exact h
  have hleft := textOf_of_mem hnodup hfilled
  rw [textOf_of_mem h hs]
  exact hleft

/-- Only the sources that are new are left, with their texts. -/
lemma textOf_filter (ys : List Source) (names : List String) (name : String) :
    textOf (ys.filter fun s => s.name ∉ names) name
      = if name ∈ names then none else textOf ys name := by
  induction ys with
  | nil => simp [textOf]
  | cons s ys ih =>
      rw [List.filter_cons, textOf_cons]
      by_cases hs : s.name ∈ names
      · by_cases heq : s.name = name
        · simpa [← heq, hs] using ih
        · simpa [hs, heq] using ih
      · simp only [hs, not_false_eq_true, decide_true, if_true, textOf_cons, ih]
        by_cases heq : s.name = name
        · simp [← heq, hs]
        · simp [heq]

/-- **The first text that is known wins.** -/
lemma textOf_joinSources (h : (xs.map Source.name).Nodup) (ys : List Source) (name : String) :
    textOf (joinSources xs ys) name = (textOf xs name).or (textOf ys name) := by
  rw [joinSources, textOf_append, textOf_filter]
  split_ifs with hname
  · rw [textOf_map_filledFrom h hname, Option.or_none]
  · have hold : name ∉ (xs.map (Source.filledFrom ys)).map Source.name := by
      rwa [map_name_filledFrom]
    rw [textOf_of_not_mem hold, textOf_of_not_mem hname]

lemma prefix_joinNames (xs ys : List String) : xs <+: joinNames xs ys := List.prefix_append _ _

lemma mem_joinNames {xs ys : List String} : name ∈ joinNames xs ys ↔ name ∈ xs ∨ name ∈ ys := by
  by_cases h : name ∈ xs <;> simp [joinNames, h]

/-- Joining names is associative. -/
lemma joinNames_assoc (xs ys zs : List String) :
    joinNames (joinNames xs ys) zs = joinNames xs (joinNames ys zs) := by
  have hnew : (zs.filter fun z => z ∉ joinNames xs ys)
      = zs.filter fun z => decide (z ∉ xs) && decide (z ∉ ys) := by
    refine List.filter_congr fun z _ => ?_
    simp [mem_joinNames]
  rw [joinNames, hnew]
  simp only [joinNames, List.filter_append, List.filter_filter, List.append_assoc]

/-- Joining sources is associative: the first text wins on either side. -/
lemma joinSources_assoc (xs : List Source) (hys : (ys.map Source.name).Nodup) (zs : List Source) :
    joinSources (joinSources xs ys) zs = joinSources xs (joinSources ys zs) := by
  have hfill : Source.filledFrom zs ∘ Source.filledFrom ys = Source.filledFrom (joinSources ys zs) := by
    funext s
    simp only [Function.comp_apply, Source.filledFrom, textOf_joinSources hys, Option.or_assoc]
  have hnew : (zs.filter fun s => s.name ∉ (joinSources xs ys).map Source.name)
      = zs.filter fun s => decide (s.name ∉ xs.map Source.name) && decide (s.name ∉ ys.map Source.name) := by
    refine List.filter_congr fun s _ => ?_
    simp only [map_name_joinSources, mem_joinNames]
    simp
  rw [joinSources, hnew]
  simp only [joinSources, List.map_append, List.map_map, hfill, List.filter_append, List.filter_filter,
    List.append_assoc, List.filter_map]
  congr 2

end

/-- Interning distinct names joins them to the table. -/
lemma internAll_eq_joinNames (table : List String) {names : List String} (h : names.Nodup) :
    (internAll table names).1 = joinNames table names := by
  induction names generalizing table with
  | nil => simp [internAll, joinNames]
  | cons name names ih =>
      obtain ⟨hnew, hrest⟩ := List.nodup_cons.1 h
      rw [internAll]
      rcases intern_cases table name with ⟨i, hi, hintern⟩ | ⟨hnot, hintern⟩
      · have hmem := List.mem_of_getElem? hi
        simp only [hintern, ih table hrest]
        simp [joinNames, hmem]
      · have hlater : (names.filter fun x => x ∉ table ++ [name]) = names.filter fun x => x ∉ table := by
          refine List.filter_congr fun x hx => ?_
          have hne : x ≠ name := fun heq => hnew (heq ▸ hx)
          simp [hne]
        simp only [hintern, ih (table ++ [name]) hrest]
        rw [joinNames, hlater]
        simp [joinNames, hnot]

namespace Builder

variable {b b' merged : Builder} {offset : UInt32}

/-- The sources that are added have no text yet. -/
lemma exists_sources_addAll (b : Builder) (names : List String) :
    ∃ added : List String,
      (addAll addSource b names).1.sources = b.sources ++ added.map fun name => ⟨name, none⟩ := by
  induction names generalizing b with
  | nil => exact ⟨[], (List.append_nil _).symm⟩
  | cons name names ih =>
      obtain ⟨added, hadded⟩ := ih (b.addSource name).1
      rw [addAll]
      cases h : indexOf? b.sourceNames name with
      | some i => exact ⟨added, by simpa [addSource, h] using hadded⟩
      | none => exact ⟨name :: added, by simpa [addSource, h] using hadded⟩

/-- Texts are kept, or filled one after the other. -/
lemma sources_foldl_keepContent (b : Builder) (others : List Source) :
    (others.foldl keepContent b).sources = b.sources.map (Source.filledFrom others) := by
  induction others generalizing b with
  | nil =>
      have hself : Source.filledFrom [] = id := by
        funext s
        simp [Source.filledFrom, textOf]
      simp [hself]
  | cons other others ih =>
      rw [List.foldl_cons, ih, keepContent, List.map_map]
      refine List.map_congr_left fun s _ => ?_
      obtain ⟨name, content⟩ := s
      simp only [Function.comp_apply, Source.filledFrom, textOf_cons]
      by_cases hname : other.name = name
      · cases content <;> simp [hname]
      · have hname' : ¬name = other.name := fun heq => hname heq.symm
        simp [hname, hname']

/-- Merging joins the sources. -/
lemma sources_withTables (b : Builder) (h : b'.sourceNames.Nodup) :
    (b.withTables b').sources = joinSources b.sources b'.sources := by
  obtain ⟨added, hadded⟩ := exists_sources_addAll b b'.sourceNames
  -- The sources that are added are the new ones.
  have hnames : added = b'.sourceNames.filter (· ∉ b.sourceNames) := by
    have hjoined := congrArg Prod.fst (addAll_eq addSource_eq b b'.sourceNames)
    simp only at hjoined
    rw [internAll_eq_joinNames _ h, joinNames, sourceNames, hadded, List.map_append, List.map_map] at hjoined
    simpa [Function.comp_def] using List.append_cancel_left hjoined
  have hfilled : ∀ s ∈ b'.sources, Source.filledFrom b'.sources ⟨s.name, none⟩ = s := by
    intro s hs
    simp [Source.filledFrom, textOf_of_mem h hs]
  rw [withTables, addAll_kept (f := sources) sources_addName, sources_foldl_keepContent, hadded,
    joinSources, List.map_append, hnames]
  congr 1
  simp only [sourceNames, List.filter_map, List.map_map]
  refine (List.map_congr_left fun s hs => ?_).trans (List.map_id _)
  exact hfilled s (List.mem_of_mem_filter hs)

/-- **The merged builder.**  It has the sources and the names of both, joined, and the mappings of the
second behind those of the first, moved to these tables. -/
lemma exists_eq_of_merge? (h' : b'.Sound) (hmerge : b.merge? b' offset = some merged) :
    ∃ moved, b'.mappings.mapM (moveMapping? (internAll b.sourceNames b'.sourceNames).2
        (internAll b.names b'.names).2 offset) = some moved
      ∧ merged = ⟨b.file, b.sourceRoot, joinSources b.sources b'.sources, joinNames b.names b'.names,
        b.mappings ++ moved⟩ := by
  obtain ⟨moved, hmoved, rfl⟩ := exists_of_merge? hmerge
  refine ⟨moved, hmoved, ?_⟩
  simp only [file_withTables, sourceRoot_withTables, sources_withTables b h'.sources, names_withTables,
    internAll_eq_joinNames _ h'.names]

/-! ## What a merged builder says -/

/-- What the mappings say, in their order; a mapping beyond the tables says nothing. -/
def readings (b : Builder) : List (Option Link) :=
  b.mappings.map (Mapping.link? b.sourceNames b.names)

/-- The generated lines of the mappings. -/
def lines (b : Builder) : List Nat := b.mappings.map fun m => m.line.toNat

/-- The merged builder is sound.  It holds what `b` holds, at the same places and with the same
meaning, and behind it what is new in `b'`; the lines of `b'` go down by the offset.  A text that `b`
has stays, and where it has none, that of `b'` is taken. -/
structure Joins (b b' : Builder) (offset : UInt32) (merged : Builder) : Prop where
  sound : merged.Sound
  file : merged.file = b.file
  sourceRoot : merged.sourceRoot = b.sourceRoot
  sources : merged.sourceNames = joinNames b.sourceNames b'.sourceNames
  names : merged.names = joinNames b.names b'.names
  contents : ∀ source, textOf merged.sources source
    = (textOf b.sources source).or (textOf b'.sources source)
  mappings : b.mappings <+: merged.mappings
  kept : b.readings <+: merged.readings
  lines : (∀ line ∈ b'.lines, line + offset.toNat < UInt32.size) →
    merged.lines = b.lines ++ b'.lines.map (· + offset.toNat)

lemma Say.map_link? {sources names : List String} {ms : List Mapping} {links : List Link}
    (h : Say sources names ms links) : ms.map (Mapping.link? sources names) = links.map some := by
  induction h with
  | nil => rfl
  | cons hfirst _ ih => rw [List.map_cons, List.map_cons, hfirst, ih]

lemma line_of_moveMapping? {sources names : List UInt32} {m moved : Mapping}
    (h : moveMapping? sources names offset m = some moved) : moved.line = m.line + offset := by
  obtain ⟨line, column, origin⟩ := m
  cases origin with
  | none =>
      cases h
      rfl
  | some o =>
      rw [moveMapping?, Option.map_eq_some_iff] at h
      obtain ⟨_, -, rfl⟩ := h
      rfl

/-- The lines that are moved go down by the offset, where they do not go beyond 32 bits. -/
lemma map_line_of_moved {sources names : List UInt32} {ms moved : List Mapping}
    (hlines : ∀ m ∈ ms, m.line.toNat + offset.toNat < UInt32.size)
    (h : ms.mapM (moveMapping? sources names offset) = some moved) :
    moved.map (fun m => m.line.toNat) = (ms.map fun m => m.line.toNat).map (· + offset.toNat) := by
  have hmoves := forall₂_of_mapM h
  clear h
  induction hmoves with
  | nil => rfl
  | cons hfirst _ ih =>
      obtain ⟨hline, hrest⟩ := List.forall_mem_cons.1 hlines
      simp only [List.map_cons, ih hrest, line_of_moveMapping? hfirst, UInt32.toNat_add]
      rw [Nat.mod_eq_of_lt hline]

/-- What a sound builder says is said in longer tables, too. -/
lemma Sound.readings_grown (h : b.Sound) {sources' names' : List String}
    (hsources : b.sourceNames <+: sources') (hnames : b.names <+: names') :
    b.mappings.map (Mapping.link? sources' names') = b.readings := by
  refine List.map_congr_left fun m hm => ?_
  obtain ⟨l, hl⟩ := Mapping.exists_link?_iff.2 (h.within m hm)
  rw [hl, Mapping.link?_of_grown hsources hnames hl]

/-- Sound builders are joined. -/
lemma Sound.joins (h : b.Sound) (h' : b'.Sound) (hmerge : b.merge? b' offset = some merged) :
    b.Joins b' offset merged := by
  obtain ⟨_, hsome, hsound⟩ := h.exists_merge h' offset
  cases hmerge.symm.trans hsome
  obtain ⟨moved, hmoved, rfl⟩ := exists_eq_of_merge? h' hmerge
  refine ⟨hsound, rfl, rfl, map_name_joinSources _ _, rfl, textOf_joinSources h.sources b'.sources,
    List.prefix_append _ _, ?_, fun hlines => ?_⟩
  · have hsources : b.sourceNames <+: (joinSources b.sources b'.sources).map Source.name := by
      rw [map_name_joinSources]
      exact prefix_joinNames _ _
    have hkept := h.readings_grown hsources (prefix_joinNames b.names b'.names)
    rw [← hkept, readings, List.map_append]
    exact List.prefix_append _ _
  · have hmovedLines := map_line_of_moved (fun m hm => hlines _ (List.mem_map_of_mem hm)) hmoved
    simp only [Builder.lines, List.map_append, hmovedLines]

end Builder

namespace Construction

open Builder

section

variable {c other : Construction} {b b' merged : Builder} {offset : UInt32}

lemma Fits.left (h : (c.merged other offset).Fits) : c.Fits where
  sources := (Finset.card_le_card Finset.subset_union_left).trans h.sources
  names := (Finset.card_le_card Finset.subset_union_left).trans h.names

lemma Fits.right (h : (c.merged other offset).Fits) : other.Fits where
  sources := (Finset.card_le_card Finset.subset_union_right).trans h.sources
  names := (Finset.card_le_card Finset.subset_union_right).trans h.names

/-- The builder that a construction makes holds what was added. -/
lemma Fits.builds (h : c.Fits) (hb : c.builder? = some b) : c.Builds b := by
  obtain ⟨_, hsome, hbuilds⟩ := exists_builder c h.sources h.names
  cases hb.symm.trans hsome
  exact hbuilds

lemma builder?_merged (hb : c.builder? = some b) (hb' : other.builder? = some b') (offset : UInt32) :
    (c.merged other offset).builder? = b.merge? b' offset := by
  simp [builder?, hb, hb']

/-- A merged builder says what was added on either side. -/
lemma Builds.readings_merged (h : c.Builds b) (h' : other.Builds b')
    (hmerged : (c.merged other offset).Builds merged) :
    merged.readings = b.readings ++ b'.readings.map (Option.map (Link.moveDown offset)) := by
  simp only [readings, hmerged.links.map_link?, h.links.map_link?, h'.links.map_link?,
    Construction.links, List.map_append, List.map_map]
  rfl

end

/-- **Merging keeps both meanings.**  Builders can always be merged, and are joined.  If the sources
and the names of both can be numbered, then the merged builder says what the first one says, and then
what the second one says, further down. -/
theorem exists_merge_joins (c other : Construction) (offset : UInt32) :
    ∃ b b' merged, c.builder? = some b ∧ other.builder? = some b'
      ∧ b.merge? b' offset = some merged ∧ b.Joins b' offset merged
      ∧ ((c.merged other offset).Fits →
        merged.readings = b.readings ++ b'.readings.map (Option.map (Link.moveDown offset))) := by
  obtain ⟨b, hb, hsound⟩ := exists_sound c
  obtain ⟨b', hb', hsound'⟩ := exists_sound other
  obtain ⟨merged, hmerge, -⟩ := hsound.exists_merge hsound' offset
  refine ⟨b, b', merged, hb, hb', hmerge, hsound.joins hsound' hmerge, fun hfits => ?_⟩
  have hmerged := hfits.builds ((builder?_merged hb hb' offset).trans hmerge)
  exact (hfits.left.builds hb).readings_merged (hfits.right.builds hb') hmerged

/-- A bundle with one source and its text. -/
def bundle : Construction :=
  ((start (some "bundle")).content "a" "A").link ⟨0, 0, some ⟨"a", 0, 0, some "alpha"⟩⟩

/-- A chunk that has another text for that source, and a source of its own. -/
def chunk : Construction :=
  ((((start none).content "b" "B").content "a" "other").link ⟨0, 0, some ⟨"b", 0, 0, some "beta"⟩⟩).link
    ⟨1, 0, some ⟨"a", 5, 0, some "alpha"⟩⟩

/-- The source that both have is listed once and keeps its text, and every mapping leads where it
led. -/
theorem exists_merge_joins_shared : ∃ merged, (bundle.merged chunk 10).builder? = some merged
    ∧ merged.sourceNames = ["a", "b"] ∧ merged.names = ["alpha", "beta"] ∧ merged.lines = [0, 10, 11]
    ∧ merged.readings = [some ⟨0, 0, some ⟨"a", 0, 0, some "alpha"⟩⟩,
      some ⟨10, 0, some ⟨"b", 0, 0, some "beta"⟩⟩, some ⟨11, 0, some ⟨"a", 5, 0, some "alpha"⟩⟩]
    ∧ textOf merged.sources "a" = some "A" ∧ textOf merged.sources "b" = some "B" := by
  have hfits : (bundle.merged chunk 10).Fits := ⟨by decide, by decide⟩
  have hfirst : bundle.builder? = some ⟨some "bundle", none, [⟨"a", some "A"⟩], ["alpha"],
      [⟨0, 0, some ⟨0, 0, 0, some 0⟩⟩]⟩ := by decide
  have hsecond : chunk.builder? = some ⟨none, none, [⟨"b", some "B"⟩, ⟨"a", some "other"⟩],
      ["beta", "alpha"], [⟨0, 0, some ⟨0, 0, 0, some 0⟩⟩, ⟨1, 0, some ⟨1, 5, 0, some 1⟩⟩]⟩ := by decide
  obtain ⟨b, b', merged, hb, hb', hmerge, hjoins, hreadings⟩ := exists_merge_joins bundle chunk 10
  cases hfirst.symm.trans hb
  cases hsecond.symm.trans hb'
  refine ⟨merged, (builder?_merged hb hb' 10).trans hmerge, hjoins.sources.trans (by decide),
    hjoins.names.trans (by decide), (hjoins.lines (by decide)).trans (by decide),
    (hreadings hfits).trans (by decide), (hjoins.contents "a").trans (by decide),
    (hjoins.contents "b").trans (by decide)⟩

/-! ## Merging is associative -/

section

variable {sources names : List String}

/-- Where nothing is listed twice, an index is determined by its entry. -/
lemma index_inj {table : List String} {i j : UInt32} {name : String} (h : table.Nodup)
    (hi : table[i.toNat]? = some name) (hj : table[j.toNat]? = some name) : i = j := by
  obtain ⟨hlt, -⟩ := List.getElem?_eq_some_iff.1 hi
  exact UInt32.toNat_inj.1 ((List.getElem?_inj hlt h).1 (hi.trans hj.symm))

/-- Where nothing is listed twice, an origin is determined by the place it refers to. -/
lemma eq_of_place? {o o' : Origin} {p : Place} (hsources : sources.Nodup) (hnames : names.Nodup)
    (h : o.place? sources names = some p) (h' : o'.place? sources names = some p) : o = o' := by
  obtain ⟨source, line, column, name⟩ := o
  obtain ⟨source', line', column', name'⟩ := o'
  obtain ⟨text, atLine, atColumn, spelling⟩ := p
  obtain ⟨hsource, hline, hcolumn, hname⟩ := Origin.place?_eq_some_iff.1 h
  obtain ⟨hsource', hline', hcolumn', hname'⟩ := Origin.place?_eq_some_iff.1 h'
  simp only at hsource hline hcolumn hname hsource' hline' hcolumn' hname'
  subst hline hcolumn hline' hcolumn'
  rw [index_inj hsources hsource hsource']
  cases hname with
  | none =>
      cases hname'
      rfl
  | some hi =>
      cases hname' with
      | some hj => rw [index_inj hnames hi hj]

/-- Where nothing is listed twice, a mapping is determined by what it says. -/
lemma eq_of_link? {m m' : Mapping} {l : Link} (hsources : sources.Nodup) (hnames : names.Nodup)
    (h : m.link? sources names = some l) (h' : m'.link? sources names = some l) : m = m' := by
  obtain ⟨line, column, origin⟩ := m
  obtain ⟨line', column', origin'⟩ := m'
  obtain ⟨atLine, atColumn, place⟩ := l
  obtain ⟨hline, hcolumn, horigin⟩ := Mapping.link?_eq_some_iff.1 h
  obtain ⟨hline', hcolumn', horigin'⟩ := Mapping.link?_eq_some_iff.1 h'
  simp only at hline hcolumn horigin hline' hcolumn' horigin'
  subst hline hcolumn hline' hcolumn'
  cases horigin with
  | none =>
      cases horigin'
      rfl
  | some hp =>
      cases horigin' with
      | some hp' => rw [eq_of_place? hsources hnames hp hp']

lemma Say.mappings_eq {ms ms' : List Mapping} {said : List Link} (hsources : sources.Nodup)
    (hnames : names.Nodup) (h : Say sources names ms said) (h' : Say sources names ms' said) :
    ms = ms' := by
  induction h generalizing ms' with
  | nil =>
      cases h'
      rfl
  | cons hfirst _ ih =>
      cases h' with
      | cons hfirst' hrest' => rw [eq_of_link? hsources hnames hfirst hfirst', ih hrest']

end

section

variable {a b c : Construction} {k l : UInt32}

/-- What goes down twice goes down by the sum. -/
lemma moveDown_moveDown (k l : UInt32) (link : Link) :
    (link.moveDown l).moveDown k = link.moveDown (k + l) := by
  simp only [Link.moveDown, UInt32.add_assoc, UInt32.add_comm l k]

lemma links_assoc : (a.merged (b.merged c l) k).links = ((a.merged b k).merged c (k + l)).links := by
  simp [links, Function.comp_def, moveDown_moveDown]

lemma Fits.assoc (h : ((a.merged b k).merged c (k + l)).Fits) : (a.merged (b.merged c l) k).Fits where
  sources := by
    have hsources := h.sources
    simp only [Construction.sources, Finset.union_assoc] at hsources ⊢
    exact hsources
  names := by
    have hnames := h.names
    simp only [Construction.names, Finset.union_assoc] at hnames ⊢
    exact hnames

/-- **Merging is associative.**  Merging the third builder into the second and the result into the
first makes the same tables as merging the second and then the third into the first, and the same
builder if all sources and names can be numbered. -/
theorem builder?_merged_assoc (a b c : Construction) (k l : UInt32) :
    ∃ left right, (a.merged (b.merged c l) k).builder? = some left
      ∧ ((a.merged b k).merged c (k + l)).builder? = some right
      ∧ left.sourceNames = right.sourceNames ∧ left.names = right.names
      ∧ (((a.merged b k).merged c (k + l)).Fits → left = right) := by
  obtain ⟨first, hfirst, hsound⟩ := exists_sound a
  obtain ⟨second, hsecond, hsound'⟩ := exists_sound b
  obtain ⟨third, hthird, hsound''⟩ := exists_sound c
  obtain ⟨late, hlate, hlateSound⟩ := hsound'.exists_merge hsound'' l
  obtain ⟨early, hearly, hearlySound⟩ := hsound.exists_merge hsound' k
  obtain ⟨left, hleft, hleftSound⟩ := hsound.exists_merge hlateSound k
  obtain ⟨right, hright, hrightSound⟩ := hearlySound.exists_merge hsound'' (k + l)
  have hbuiltLeft := (builder?_merged hfirst ((builder?_merged hsecond hthird l).trans hlate) k).trans hleft
  have hbuiltRight :=
    (builder?_merged ((builder?_merged hfirst hsecond k).trans hearly) hthird (k + l)).trans hright
  refine ⟨left, right, hbuiltLeft, hbuiltRight, ?_⟩
  obtain ⟨_, -, rfl⟩ := exists_eq_of_merge? hsound'' hlate
  obtain ⟨_, -, rfl⟩ := exists_eq_of_merge? hsound' hearly
  obtain ⟨movedLeft, -, rfl⟩ := exists_eq_of_merge? hlateSound hleft
  obtain ⟨movedRight, -, rfl⟩ := exists_eq_of_merge? hsound'' hright
  have hsources := joinSources_assoc first.sources hsound'.sources third.sources
  have hnames := joinNames_assoc first.names second.names third.names
  refine ⟨congrArg (List.map Source.name) hsources.symm, hnames.symm, fun hfits => ?_⟩
  -- The tables are the same, and so is what the mappings say.
  have hsaidLeft := (hfits.assoc.builds hbuiltLeft).links
  have hsaidRight := (hfits.builds hbuiltRight).links
  simp only [links_assoc, sourceNames, ← hsources, ← hnames] at hsaidLeft
  have hmappings := Say.mappings_eq hrightSound.sources hrightSound.names hsaidLeft hsaidRight
  simp only at hmappings ⊢
  rw [hsources, hnames, hmappings]

/-- The bundle, the chunk and a part that shares a source with the chunk, merged into one. -/
def allMerged : Builder where
  file := some "bundle"
  sources := [⟨"a", some "A"⟩, ⟨"b", some "B"⟩]
  names := ["alpha", "beta", "f"]
  mappings := [⟨0, 0, some ⟨0, 0, 0, some 0⟩⟩, ⟨10, 0, some ⟨1, 0, 0, some 1⟩⟩,
    ⟨11, 0, some ⟨0, 5, 0, some 0⟩⟩, ⟨12, 4, some ⟨1, 2, 1, some 2⟩⟩]

/-- Both orders of merging make this builder. -/
theorem builder?_merged_assoc_shared :
    (bundle.merged (chunk.merged part 2) 10).builder? = some allMerged
      ∧ ((bundle.merged chunk 10).merged part 12).builder? = some allMerged := by
  obtain ⟨left, right, hleft, hright, -, -, hsame⟩ := builder?_merged_assoc bundle chunk part 10 2
  have hfits : ((bundle.merged chunk 10).merged part 12).Fits := ⟨by decide, by decide⟩
  have hall : (bundle.merged (chunk.merged part 2) 10).builder? = some allMerged := by decide +kernel
  obtain rfl : left = allMerged := Option.some.inj (hleft.symm.trans hall)
  exact ⟨hall, hsame hfits ▸ hright⟩

end

end Construction

end Rebuild.SourceMap
