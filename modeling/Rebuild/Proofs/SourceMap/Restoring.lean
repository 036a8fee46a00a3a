import Rebuild.Proofs.SourceMap.Sound

/-!
# Going on from one's own map

A builder that goes on from the map of another builder has the same tables, texts included, and the
same mappings, in order and each once; so it makes the same map again: `ofMap_toMap`.

* **Sources.**  The map lists each source once, so each comes back with its text, whether or not there
  is a text at all (`addSources_of_nodup`, `withContents_toMap`).
* **Mappings.**  What is in order and without repetitions stays as it is (`toMap_tidied`).
-/

namespace Rebuild.SourceMap

namespace Builder

variable {b : Builder}

/-! ## Sources -/

/-- A source that is new goes to the end with its text. -/
lemma addWithContent_of_not_mem {s : Source} (h : s.name ∉ b.sourceNames) :
    b.addWithContent s.name s.content = { b with sources := b.sources ++ [s] } := by
  obtain ⟨name, content⟩ := s
  have hindex : indexOf? b.sourceNames name = none := by
    rw [indexOf?, List.findIdx?_eq_none_iff]
    intro x hx
    exact beq_eq_false_iff_ne.2 fun heq => h (heq ▸ hx)
  have hadded : (b.addSource name).1 = { b with sources := b.sources ++ [⟨name, none⟩] } := by
    simp [addSource, hindex]
  cases content with
  | none => exact hadded
  | some text =>
      have hothers : replaceContent b.sources name (some text) = b.sources := by
        rw [replaceContent]
        refine (List.map_congr_left fun s hs => if_neg fun heq => h ?_).trans (List.map_id _)
        exact List.mem_map.2 ⟨s, hs, heq⟩
      simp only [replaceContent] at hothers
      simp [addWithContent, setContent, hadded, replaceContent, hothers]

/-- Sources that are new and distinct go to the end with their texts. -/
lemma addSources_of_nodup {sources : List Source}
    (h : (b.sourceNames ++ sources.map Source.name).Nodup) :
    b.addSources (sources.map fun s => (s.name, s.content))
      = { b with sources := b.sources ++ sources } := by
  induction sources generalizing b with
  | nil => simp [addSources]
  | cons s sources ih =>
      have hnew : s.name ∉ b.sourceNames := fun hmem =>
        List.disjoint_of_nodup_append h hmem List.mem_cons_self
      have hnext : (b.sourceNames ++ s.name :: sources.map Source.name).Nodup := h
      rw [List.append_cons] at hnext
      have hrest := ih (b := { b with sources := b.sources ++ [s] }) (by simpa [sourceNames] using hnext)
      simp only [addSources] at hrest ⊢
      rw [List.map_cons, List.foldl_cons, addWithContent_of_not_mem hnew, hrest, List.append_assoc,
        List.singleton_append]

/-- Only the names change when names are added. -/
lemma addAll_addName (b : Builder) (names : List String) :
    (addAll addName b names).1 = { b with names := (internAll b.names names).1 } := by
  induction names generalizing b with
  | nil => rfl
  | cons name names ih =>
      have hadded : (b.addName name).1 = { b with names := (intern b.names name).1 } := by
        rw [addName, intern]
        cases indexOf? b.names name <;> rfl
      rw [addAll, internAll]
      simp only [ih, hadded]

lemma withContents_map (sources : List Source) :
    withContents (sources.map Source.name) (sources.map Source.content)
      = sources.map fun s => (s.name, s.content) := by
  induction sources with
  | nil => rfl
  | cons s sources ih => simp [withContents, ih]

lemma withContents_nil (sources : List String) :
    withContents sources [] = sources.map fun source => (source, none) := by
  induction sources with
  | nil => rfl
  | cons source sources ih => simp [withContents, ih]

/-- The sources of a map have the texts of the builder, also where it has none at all. -/
lemma withContents_toMap (b : Builder) :
    withContents b.toMap.sources (b.toMap.contents.getD [])
      = b.sources.map fun s => (s.name, s.content) := by
  by_cases hany : b.sources.any (·.content.isSome) = true
  · simp only [toMap, sourceNames, hany, if_true, Option.getD_some, withContents_map]
  · have hnone : ∀ s ∈ b.sources, s.content = none := by simpa using hany
    have htexts : b.toMap.contents.getD [] = [] := by
      rw [toMap]
      simp only [if_neg hany, Option.getD_none]
    rw [htexts, withContents_nil, toMap]
    simp only [sourceNames, List.map_map]
    refine List.map_congr_left fun s hs => ?_
    simp [hnone s hs]

/-- The tables come back from the map. -/
lemma reopened_toMap (h : b.Sound) : reopened b.toMap = { b with mappings := [] } := by
  have hsources : addSources { file := b.file, sourceRoot := b.sourceRoot }
      (b.sources.map fun s => (s.name, s.content))
      = { file := b.file, sourceRoot := b.sourceRoot, sources := b.sources } := by
    rw [addSources_of_nodup (by simpa [sourceNames] using h.sources), List.nil_append]
  have hnames : (internAll [] b.names).1 = b.names := by
    rw [internAll_of_nodup (by simpa using h.names), List.nil_append]
  rw [reopened, withContents_toMap]
  simp only [toMap, hsources, addAll_addName, hnames]

/-! ## Mappings -/

/-- The builder with its mappings in order, each once. -/
def tidied (b : Builder) : Builder := { b with mappings := (Mapping.sort b.mappings).eraseReps }

/-- Putting the mappings in order changes nothing about the map. -/
lemma toMap_tidied (b : Builder) : b.tidied.toMap = b.toMap := by
  have hsorted : (Mapping.sort b.mappings).eraseReps.Pairwise fun m m' => m.notAfter m' = true :=
    (pairwise_mergeSort b.mappings).sublist (sublist_eraseReps _)
  have hsort : Mapping.sort (Mapping.sort b.mappings).eraseReps = (Mapping.sort b.mappings).eraseReps :=
    List.mergeSort_of_pairwise hsorted
  have hmappings : (Mapping.sort b.tidied.mappings).eraseReps = (Mapping.sort b.mappings).eraseReps := by
    rw [tidied, hsort, eraseReps_eraseReps]
  rw [toMap, hmappings]
  rfl

end Builder

/-! ## Constructions -/

/-- **Going on from one's own map.**  Every builder can go on from its map; it has what it had, with
its mappings in order, each once, and its map is the same in every field. -/
theorem Construction.exists_ofMap_toMap (c : Construction) :
    ∃ b, c.builder? = some b ∧ Builder.ofMap b.toMap = .ok b.tidied ∧ b.tidied.toMap = b.toMap := by
  obtain ⟨b, hb, hsound⟩ := exists_sound c
  refine ⟨b, hb, ?_, b.toMap_tidied⟩
  rw [Builder.ofMap_eq (decode_toMap hsound.within), Builder.reopened_toMap hsound]
  rfl

end Rebuild.SourceMap
