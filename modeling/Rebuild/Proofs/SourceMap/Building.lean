import Rebuild.Proofs.SourceMap.Tables

/-!
# What a builder holds

A `Construction` says how a builder is made, and `Construction.links` lists what was added on the
way.  `exists_builder`: the construction succeeds, and the mappings of the builder say exactly that.

* **Steps.**  What the functions of the builder do to its tables and to its mappings.
* **Merging.**  A mapping that is moved says the same, some lines further down (`exists_moved`).
* **Endpoint.**  `Construction.Builds` is kept by every step.  An index of a table has 32 bits and
  would be cut off beyond them, so there may not be more sources or names than that.
-/

namespace Rebuild.SourceMap

/-- The link some lines further down. -/
def Link.moveDown (offset : UInt32) (l : Link) : Link := { l with line := l.line + offset }

namespace Builder

variable {b other : Builder}

/-! ## Steps -/

section

variable (b : Builder) (source name : String) (names : List String)

lemma addSource_eq :
    ((b.addSource source).1.sourceNames, (b.addSource source).2) = intern b.sourceNames source := by
  rw [addSource, intern]
  cases indexOf? b.sourceNames source <;> simp [sourceNames]

@[simp] lemma sourceNames_addSource :
    (b.addSource source).1.sourceNames = (intern b.sourceNames source).1 :=
  congrArg Prod.fst (addSource_eq b source)

@[simp] lemma index_addSource : (b.addSource source).2 = (intern b.sourceNames source).2 :=
  congrArg Prod.snd (addSource_eq b source)

@[simp] lemma names_addSource : (b.addSource source).1.names = b.names := by
  rw [addSource]
  cases indexOf? b.sourceNames source <;> rfl

@[simp] lemma mappings_addSource : (b.addSource source).1.mappings = b.mappings := by
  rw [addSource]
  cases indexOf? b.sourceNames source <;> rfl

@[simp] lemma sourceRoot_addSource : (b.addSource source).1.sourceRoot = b.sourceRoot := by
  rw [addSource]
  cases indexOf? b.sourceNames source <;> rfl

@[simp] lemma file_addSource : (b.addSource source).1.file = b.file := by
  rw [addSource]
  cases indexOf? b.sourceNames source <;> rfl

lemma addName_eq : ((b.addName name).1.names, (b.addName name).2) = intern b.names name := by
  rw [addName, intern]
  cases indexOf? b.names name <;> rfl

@[simp] lemma names_addName : (b.addName name).1.names = (intern b.names name).1 :=
  congrArg Prod.fst (addName_eq b name)

@[simp] lemma index_addName : (b.addName name).2 = (intern b.names name).2 :=
  congrArg Prod.snd (addName_eq b name)

@[simp] lemma sourceNames_addName : (b.addName name).1.sourceNames = b.sourceNames := by
  rw [addName]
  cases indexOf? b.names name <;> rfl

@[simp] lemma mappings_addName : (b.addName name).1.mappings = b.mappings := by
  rw [addName]
  cases indexOf? b.names name <;> rfl

@[simp] lemma sourceRoot_addName : (b.addName name).1.sourceRoot = b.sourceRoot := by
  rw [addName]
  cases indexOf? b.names name <;> rfl

@[simp] lemma file_addName : (b.addName name).1.file = b.file := by
  rw [addName]
  cases indexOf? b.names name <;> rfl

@[simp] lemma sources_addName : (b.addName name).1.sources = b.sources := by
  rw [addName]
  cases indexOf? b.names name <;> rfl

/-- Texts are no matter of the names. -/
lemma sourceNames_setContent (content : String) :
    (b.setContent source content).sourceNames = (intern b.sourceNames source).1 := by
  have hnames : ∀ sources : List Source,
      (replaceContent sources source (some content)).map Source.name = sources.map Source.name := by
    intro sources
    rw [replaceContent, List.map_map]
    refine List.map_congr_left fun s _ => ?_
    simp only [Function.comp_apply]
    split_ifs <;> rfl
  rw [← sourceNames_addSource b source]
  exact hnames _

end

/-- Adding one entry after the other interns them all. -/
lemma addAll_eq {add : Builder → String → Builder × UInt32} {table : Builder → List String}
    (hadd : ∀ b name, (table (add b name).1, (add b name).2) = intern (table b) name) (b : Builder)
    (names : List String) :
    (table (addAll add b names).1, (addAll add b names).2) = internAll (table b) names := by
  induction names generalizing b with
  | nil => rfl
  | cons name names ih =>
      have hrest := ih (add b name).1
      rw [internAll]
      simp only [← hadd b name, ← hrest]
      rfl

/-- What no addition changes stays as it is. -/
lemma addAll_kept {β : Type} {add : Builder → String → Builder × UInt32} {f : Builder → β}
    (hadd : ∀ b name, f (add b name).1 = f b) (b : Builder) (names : List String) :
    f (addAll add b names).1 = f b := by
  induction names generalizing b with
  | nil => rfl
  | cons name names ih => exact (ih (add b name).1).trans (hadd b name)

/-- What texts do not matter for stays as it is. -/
lemma foldl_keepContent_kept {β : Type} {f : Builder → β} (hkeep : ∀ b s, f (keepContent b s) = f b)
    (b : Builder) (sources : List Source) : f (sources.foldl keepContent b) = f b := by
  induction sources generalizing b with
  | nil => rfl
  | cons s sources ih => exact (ih (b.keepContent s)).trans (hkeep b s)

lemma sourceNames_keepContent (b : Builder) (s : Source) :
    (b.keepContent s).sourceNames = b.sourceNames := by
  show List.map _ (List.map _ _) = _
  rw [List.map_map]
  refine List.map_congr_left fun x _ => ?_
  simp only [Function.comp_apply]
  split_ifs <;> rfl

/-! ## Merging -/

/-- The builder with all that is in the tables of the other one. -/
def withTables (b other : Builder) : Builder :=
  (addAll addName (other.sources.foldl keepContent (addAll addSource b other.sourceNames).1)
    other.names).1

lemma sourceNames_withTables (b other : Builder) :
    (b.withTables other).sourceNames = (internAll b.sourceNames other.sourceNames).1 := by
  rw [withTables, addAll_kept sourceNames_addName, foldl_keepContent_kept sourceNames_keepContent]
  exact congrArg Prod.fst (addAll_eq addSource_eq b other.sourceNames)

lemma names_withTables (b other : Builder) :
    (b.withTables other).names = (internAll b.names other.names).1 := by
  have hnames := congrArg Prod.fst (addAll_eq addName_eq
    (other.sources.foldl keepContent (addAll addSource b other.sourceNames).1) other.names)
  rw [foldl_keepContent_kept (f := names) (fun _ _ => rfl), addAll_kept (f := names) names_addSource]
    at hnames
  exact hnames

lemma mappings_withTables (b other : Builder) : (b.withTables other).mappings = b.mappings := by
  rw [withTables, addAll_kept (f := mappings) mappings_addName,
    foldl_keepContent_kept (f := mappings) (fun _ _ => rfl),
    addAll_kept (f := mappings) mappings_addSource]

lemma sourceRoot_withTables (b other : Builder) :
    (b.withTables other).sourceRoot = b.sourceRoot := by
  rw [withTables, addAll_kept (f := sourceRoot) sourceRoot_addName,
    foldl_keepContent_kept (f := sourceRoot) (fun _ _ => rfl),
    addAll_kept (f := sourceRoot) sourceRoot_addSource]

lemma file_withTables (b other : Builder) : (b.withTables other).file = b.file := by
  rw [withTables, addAll_kept (f := file) file_addName,
    foldl_keepContent_kept (f := file) (fun _ _ => rfl), addAll_kept (f := file) file_addSource]

/-- Merging adds to the tables, and then moves all mappings. -/
lemma merge?_eq (b other : Builder) (offset : UInt32) :
    b.merge? other offset = (other.mappings.mapM (moveMapping?
        (internAll b.sourceNames other.sourceNames).2 (internAll b.names other.names).2 offset)).map
      fun moved => { b.withTables other with mappings := b.mappings ++ moved } := by
  have hsources := congrArg Prod.snd (addAll_eq addSource_eq b other.sourceNames)
  have hnames := congrArg Prod.snd (addAll_eq addName_eq
    (other.sources.foldl keepContent (addAll addSource b other.sourceNames).1) other.names)
  rw [foldl_keepContent_kept (f := names) (fun _ _ => rfl), addAll_kept (f := names) names_addSource]
    at hnames
  simp only at hsources hnames
  rw [← hsources, ← hnames, ← mappings_withTables b other, merge?]
  exact Option.map_eq_bind.symm

/-- A mapping that is moved says the same as before, further down. -/
lemma exists_move {sources names incomingSources incomingNames : List String} (offset : UInt32)
    (hsources : (internAll sources incomingSources).1.length ≤ UInt32.size)
    (hnames : (internAll names incomingNames).1.length ≤ UInt32.size) {m : Mapping} {l : Link}
    (h : m.link? incomingSources incomingNames = some l) :
    ∃ m', moveMapping? (internAll sources incomingSources).2 (internAll names incomingNames).2 offset m
        = some m'
      ∧ m'.link? (internAll sources incomingSources).1 (internAll names incomingNames).1
        = some (l.moveDown offset) := by
  obtain ⟨line, column, origin⟩ := m
  obtain ⟨line', column', place⟩ := l
  obtain ⟨hline, hcolumn, hplace⟩ := Mapping.link?_eq_some_iff.1 h
  simp only at hline hcolumn hplace
  subst hline hcolumn
  cases hplace with
  | none => exact ⟨_, rfl, rfl⟩
  | @some o p hp =>
      obtain ⟨source, atLine, atColumn, name⟩ := o
      obtain ⟨text, atLine', atColumn', spelling⟩ := p
      obtain ⟨hsource, hatLine, hatColumn, hname⟩ := Origin.place?_eq_some_iff.1 hp
      simp only at hsource hatLine hatColumn hname
      subst hatLine hatColumn
      obtain ⟨i, hi, htext⟩ := getElem?_internAll sources hsources hsource
      cases hname with
      | none =>
          refine ⟨⟨line + offset, column, some ⟨i, atLine, atColumn, none⟩⟩, ?_, ?_⟩
          · simp [moveMapping?, moveOrigin?, hi]
          · exact Mapping.link?_eq_some_iff.2 ⟨rfl, rfl, .some (Origin.place?_eq_some_iff.2
              ⟨htext, rfl, rfl, .none⟩)⟩
      | @some n spelling hn =>
          obtain ⟨j, hj, hspelling⟩ := getElem?_internAll names hnames hn
          refine ⟨⟨line + offset, column, some ⟨i, atLine, atColumn, some j⟩⟩, ?_, ?_⟩
          · simp [moveMapping?, moveOrigin?, hi, hj]
          · exact Mapping.link?_eq_some_iff.2 ⟨rfl, rfl, .some (Origin.place?_eq_some_iff.2
              ⟨htext, rfl, rfl, .some hspelling⟩)⟩

/-- The mappings say these things, one each. -/
def Say (sources names : List String) : List Mapping → List Link → Prop :=
  List.Forall₂ fun m l => m.link? sources names = some l

/-- All mappings can be moved. -/
lemma exists_moved {sources names incomingSources incomingNames : List String} (offset : UInt32)
    (hsources : (internAll sources incomingSources).1.length ≤ UInt32.size)
    (hnames : (internAll names incomingNames).1.length ≤ UInt32.size) {ms : List Mapping}
    {links : List Link} (h : Say incomingSources incomingNames ms links) :
    ∃ moved, ms.mapM (moveMapping? (internAll sources incomingSources).2
        (internAll names incomingNames).2 offset) = some moved
      ∧ Say (internAll sources incomingSources).1 (internAll names incomingNames).1 moved
        (links.map (Link.moveDown offset)) := by
  induction h with
  | nil => exact ⟨[], rfl, .nil⟩
  | cons hfirst _ ih =>
      obtain ⟨m', hmove, hsays⟩ := exists_move offset hsources hnames hfirst
      obtain ⟨moved, hmoved, hrest⟩ := ih
      refine ⟨m' :: moved, ?_, .cons hsays hrest⟩
      rw [List.mapM_cons, hmove, hmoved]
      rfl

lemma Say.of_grown {sources sources' names names' : List String} {ms : List Mapping}
    {links : List Link} (h : Say sources names ms links) (hsources : sources <+: sources')
    (hnames : names <+: names') : Say sources' names' ms links :=
  h.imp fun _ _ => Mapping.link?_of_grown hsources hnames

end Builder

/-! ## Constructions -/

/-- How a builder is made. -/
inductive Construction where
  | start (file : Option String)
  | rooted (c : Construction) (root : String)
  | source (c : Construction) (source : String)
  | name (c : Construction) (name : String)
  | content (c : Construction) (source content : String)
  | link (c : Construction) (l : Link)
  | merged (c other : Construction) (offset : UInt32)

namespace Construction

/-- The builder that is made so. -/
def builder? : Construction → Option Builder
  | start file => some { file }
  | rooted c dir => c.builder?.map fun b => { b with sourceRoot := some dir }
  | source c s => c.builder?.map fun b => (b.addSource s).1
  | name c n => c.builder?.map fun b => (b.addName n).1
  | content c s text => c.builder?.map fun b => b.setContent s text
  | link c l => c.builder?.map fun b => b.addLink l
  | merged c other offset => do (← c.builder?).merge? (← other.builder?) offset

/-- The root that was set last. -/
def root : Construction → Option String
  | start _ => none
  | rooted _ dir => some dir
  | source c _ | name c _ | content c _ _ | link c _ | merged c _ _ => c.root

/-- What was added, in that order; what is merged in moves down. -/
def links : Construction → List Link
  | start _ => []
  | rooted c _ | source c _ | name c _ | content c _ _ => c.links
  | link c l => c.links ++ [l]
  | merged c other offset => c.links ++ other.links.map (Link.moveDown offset)

/-- The sources that were mentioned. -/
def sources : Construction → Finset String
  | start _ => ∅
  | rooted c _ | name c _ => c.sources
  | source c s | content c s _ => insert s c.sources
  | link c l => match l.place with
    | none => c.sources
    | some p => insert p.source c.sources
  | merged c other _ => c.sources ∪ other.sources

/-- The names that were mentioned. -/
def names : Construction → Finset String
  | start _ => ∅
  | rooted c _ | source c _ | content c _ _ => c.names
  | name c n => insert n c.names
  | link c l => match l.place.bind Place.name with
    | none => c.names
    | some n => insert n c.names
  | merged c other _ => c.names ∪ other.names

/-- The builder has the root, lists what was mentioned, and its mappings say what was added. -/
structure Builds (c : Construction) (b : Builder) : Prop where
  root : b.sourceRoot = c.root
  sources : Lists b.sourceNames c.sources
  names : Lists b.names c.names
  links : Builder.Say b.sourceNames b.names b.mappings c.links

variable {c other : Construction} {b b' : Builder}

lemma Builds.source (h : c.Builds b) (s : String) : (c.source s).Builds (b.addSource s).1 where
  root := (b.sourceRoot_addSource s).trans h.root
  sources := by
    rw [Builder.sourceNames_addSource]
    exact h.sources.intern s
  names := by
    rw [Builder.names_addSource]
    exact h.names
  links := by
    rw [Builder.sourceNames_addSource, Builder.names_addSource, Builder.mappings_addSource]
    exact h.links.of_grown (prefix_intern _ s) (List.prefix_refl _)

lemma Builds.name (h : c.Builds b) (n : String) : (c.name n).Builds (b.addName n).1 where
  root := (b.sourceRoot_addName n).trans h.root
  sources := by
    rw [Builder.sourceNames_addName]
    exact h.sources
  names := by
    rw [Builder.names_addName]
    exact h.names.intern n
  links := by
    rw [Builder.sourceNames_addName, Builder.names_addName, Builder.mappings_addName]
    exact h.links.of_grown (List.prefix_refl _) (prefix_intern _ n)

lemma Builds.content (h : c.Builds b) (s text : String) :
    (c.content s text).Builds (b.setContent s text) := by
  have hnext := h.source s
  have hsources : (b.setContent s text).sourceNames = (b.addSource s).1.sourceNames :=
    (b.sourceNames_setContent s text).trans (b.sourceNames_addSource s).symm
  refine ⟨hnext.root, ?_, hnext.names, ?_⟩
  · rw [hsources]
    exact hnext.sources
  · rw [hsources]
    exact hnext.links

/-- A link is added as a mapping that says it. -/
lemma Builds.link (h : c.Builds b) (l : Link) (hsources : (c.link l).sources.card ≤ UInt32.size)
    (hnames : (c.link l).names.card ≤ UInt32.size) : (c.link l).Builds (b.addLink l) := by
  obtain ⟨line, column, place⟩ := l
  cases place with
  | none => exact ⟨h.root, h.sources, h.names, List.rel_append h.links (.cons rfl .nil)⟩
  | some p =>
      obtain ⟨s, atLine, atColumn, spelling⟩ := p
      have hnext := h.source s
      have hfound := getElem?_intern ((h.sources.intern s).length_eq.trans_le hsources)
      rw [← Builder.sourceNames_addSource, ← Builder.index_addSource] at hfound
      cases spelling with
      | none =>
          refine ⟨hnext.root, hnext.sources, hnext.names, List.rel_append hnext.links (.cons ?_ .nil)⟩
          exact Mapping.link?_eq_some_iff.2 ⟨rfl, rfl, .some (Origin.place?_eq_some_iff.2
            ⟨hfound, rfl, rfl, .none⟩)⟩
      | some n =>
          have hlast := hnext.name n
          have hspelling := getElem?_intern ((h.names.intern n).length_eq.trans_le hnames)
          rw [← Builder.names_addSource b s, ← Builder.names_addName, ← Builder.index_addName]
            at hspelling
          rw [← Builder.sourceNames_addName (b.addSource s).1 n] at hfound
          refine ⟨hlast.root, hlast.sources, hlast.names, List.rel_append hlast.links (.cons ?_ .nil)⟩
          exact Mapping.link?_eq_some_iff.2 ⟨rfl, rfl, .some (Origin.place?_eq_some_iff.2
            ⟨hfound, rfl, rfl, .some hspelling⟩)⟩

/-- What is merged in is added, some lines further down. -/
lemma Builds.exists_merge (h : c.Builds b) (hother : other.Builds b') (offset : UInt32)
    (hsources : (c.sources ∪ other.sources).card ≤ UInt32.size)
    (hnames : (c.names ∪ other.names).card ≤ UInt32.size) :
    ∃ merged, b.merge? b' offset = some merged ∧ (c.merged other offset).Builds merged := by
  have hallSources := h.sources.internAll b'.sourceNames
  have hallNames := h.names.internAll b'.names
  rw [hother.sources.toFinset_eq] at hallSources
  rw [hother.names.toFinset_eq] at hallNames
  obtain ⟨moved, hmoved, hsays⟩ := Builder.exists_moved offset
    (hallSources.length_eq.trans_le hsources) (hallNames.length_eq.trans_le hnames) hother.links
  refine ⟨{ b.withTables b' with mappings := b.mappings ++ moved }, ?_, ?_⟩
  · rw [Builder.merge?_eq, hmoved]
    rfl
  · have hsourceNames := b.sourceNames_withTables b'
    have htableNames := b.names_withTables b'
    refine ⟨(b.sourceRoot_withTables b').trans h.root, ?_, ?_, ?_⟩
    · show Lists (b.withTables b').sourceNames _
      rw [hsourceNames]
      exact hallSources
    · show Lists (b.withTables b').names _
      rw [htableNames]
      exact hallNames
    · show Builder.Say (b.withTables b').sourceNames (b.withTables b').names _ _
      rw [hsourceNames, htableNames]
      exact List.rel_append (h.links.of_grown (prefix_internAll _ _) (prefix_internAll _ _)) hsays

/-- **What a builder holds.**  A construction makes a builder whose mappings say what was added. -/
theorem exists_builder : ∀ (c : Construction), c.sources.card ≤ UInt32.size →
    c.names.card ≤ UInt32.size → ∃ b, c.builder? = some b ∧ c.Builds b
  | .start file, _, _ => ⟨{ file }, rfl, rfl, lists_nil, lists_nil, .nil⟩
  | .rooted c dir, hsources, hnames => by
      obtain ⟨b, hb, h⟩ := exists_builder c hsources hnames
      refine ⟨{ b with sourceRoot := some dir }, ?_, rfl, h.sources, h.names, h.links⟩
      rw [builder?, hb]
      rfl
  | .source c s, hsources, hnames => by
      obtain ⟨b, hb, h⟩ := exists_builder c
        ((Finset.card_le_card (Finset.subset_insert s c.sources)).trans hsources) hnames
      refine ⟨_, ?_, h.source s⟩
      rw [builder?, hb]
      rfl
  | .name c n, hsources, hnames => by
      obtain ⟨b, hb, h⟩ := exists_builder c hsources
        ((Finset.card_le_card (Finset.subset_insert n c.names)).trans hnames)
      refine ⟨_, ?_, h.name n⟩
      rw [builder?, hb]
      rfl
  | .content c s text, hsources, hnames => by
      obtain ⟨b, hb, h⟩ := exists_builder c
        ((Finset.card_le_card (Finset.subset_insert s c.sources)).trans hsources) hnames
      refine ⟨_, ?_, h.content s text⟩
      rw [builder?, hb]
      rfl
  | .link c l, hsources, hnames => by
      have hsubSources : c.sources ⊆ (c.link l).sources := by
        rw [sources]
        split
        · exact Finset.Subset.refl _
        · exact Finset.subset_insert _ _
      have hsubNames : c.names ⊆ (c.link l).names := by
        rw [names]
        split
        · exact Finset.Subset.refl _
        · exact Finset.subset_insert _ _
      obtain ⟨b, hb, h⟩ := exists_builder c ((Finset.card_le_card hsubSources).trans hsources)
        ((Finset.card_le_card hsubNames).trans hnames)
      refine ⟨_, ?_, h.link l hsources hnames⟩
      rw [builder?, hb]
      rfl
  | .merged c other offset, hsources, hnames => by
      obtain ⟨b, hb, h⟩ := exists_builder c
        ((Finset.card_le_card Finset.subset_union_left).trans hsources)
        ((Finset.card_le_card Finset.subset_union_left).trans hnames)
      obtain ⟨b', hb', h'⟩ := exists_builder other
        ((Finset.card_le_card Finset.subset_union_right).trans hsources)
        ((Finset.card_le_card Finset.subset_union_right).trans hnames)
      obtain ⟨merged, hmerged, hbuilds⟩ := h.exists_merge h' offset hsources hnames
      refine ⟨merged, ?_, hbuilds⟩
      rw [builder?, hb, hb']
      exact hmerged

end Construction
end Rebuild.SourceMap
