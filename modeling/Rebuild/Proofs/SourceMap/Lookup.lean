import Rebuild.Proofs.SourceMap.Building
import Rebuild.SourceMap.Lookup

/-!
# Where positions come from

A position of generated code is looked up in the map of a builder, and the answer is one that the
links which were added allow: `find?_of_construction`.

* **The specification.**  `Answers` reads the links in any order, and mentions neither tables nor
  text.  Where no two links share a position it allows one answer only (`Answers.unique`).
* **Choosing.**  `choose?_cases`: what is taken out of the mappings of a line.
* **Any map.**  `answers_find?`: a resolver answers what the mappings of its map say.
* **Written maps.**  `decode_toMap`: the mappings of a builder come back from its map.
-/

namespace Rebuild.SourceMap

/-! ## The specification -/

/-- Of the links on a line that have a place, `l` is nearest to the column: the last one that is not
behind the column or, if all are behind it, the first one. -/
def Nearest (links : List Link) (line column : UInt32) (l : Link) : Prop :=
  (l.column ≤ column ∧ ∀ l' ∈ links, l'.line = line → l'.place ≠ none → l'.column ≤ column →
      l'.column ≤ l.column)
    ∨ ∀ l' ∈ links, l'.line = line → l'.place ≠ none → column < l'.column ∧ l.column ≤ l'.column

/-- What may be answered: nothing if no link on the line has a place, and otherwise the place of a
nearest one, seen from the root. -/
def Answers (root : Option String) (links : List Link) (line column : UInt32) :
    Option OriginalPosition → Prop
  | none => ∀ l ∈ links, l.line = line → l.place = none
  | some found => ∃ l ∈ links, ∃ p, l.line = line ∧ l.place = some p ∧ Nearest links line column l
      ∧ found = ⟨underRoot (root.getD "") p.source, p.line, p.column, p.name⟩

variable {root : Option String} {links links' : List Link} {line column : UInt32}

lemma Nearest.congr (h : ∀ l, l ∈ links ↔ l ∈ links') {l : Link} :
    Nearest links line column l ↔ Nearest links' line column l := by
  simp only [Nearest, h]

/-- The order of the links does not matter. -/
lemma Answers.congr (h : ∀ l, l ∈ links ↔ l ∈ links') {answer : Option OriginalPosition} :
    Answers root links line column answer ↔ Answers root links' line column answer := by
  cases answer with
  | none => simp only [Answers, h]
  | some found => simp only [Answers, h, Nearest.congr h]

/-- The links that are nearest are in one column. -/
lemma Nearest.column_eq {l l' : Link} (h : Nearest links line column l)
    (h' : Nearest links line column l') (hl : l ∈ links) (hline : l.line = line)
    (hplace : l.place ≠ none) (hl' : l' ∈ links) (hline' : l'.line = line) (hplace' : l'.place ≠ none) :
    l.column = l'.column := by
  rcases h with ⟨hle, hmax⟩ | hmin
  · rcases h' with ⟨hle', hmax'⟩ | hmin'
    · exact UInt32.le_antisymm (hmax' l hl hline hplace hle) (hmax l' hl' hline' hplace' hle')
    · exact absurd hle (UInt32.not_le.2 (hmin' l hl hline hplace).1)
  · rcases h' with ⟨hle', hmax'⟩ | hmin'
    · exact absurd hle' (UInt32.not_le.2 (hmin l' hl' hline' hplace').1)
    · exact UInt32.le_antisymm (hmin l' hl' hline' hplace').2 (hmin' l hl hline hplace).2

/-- Where links at one position are the same, only one answer is allowed. -/
lemma Answers.unique {answer answer' : Option OriginalPosition}
    (hpositions : ∀ l ∈ links, ∀ l' ∈ links, l.line = l'.line → l.column = l'.column → l = l')
    (h : Answers root links line column answer) (h' : Answers root links line column answer') :
    answer = answer' := by
  cases answer with
  | none =>
      cases answer' with
      | none => rfl
      | some found =>
          obtain ⟨l, hl, p, hline, hplace, -⟩ := h'
          cases hplace.symm.trans (h l hl hline)
  | some found =>
      obtain ⟨l, hl, p, hline, hplace, hnearest, rfl⟩ := h
      cases answer' with
      | none => cases hplace.symm.trans (h' l hl hline)
      | some found' =>
          obtain ⟨l', hl', p', hline', hplace', hnearest', rfl⟩ := h'
          have hcolumn := hnearest.column_eq hnearest' hl hline (by simp [hplace]) hl' hline'
            (by simp [hplace'])
          cases hpositions l hl l' hl' (hline.trans hline'.symm) hcolumn
          cases hplace.symm.trans hplace'
          rfl

/-! ## Choosing -/

/-- What is chosen from the mappings of a line, which are in order. -/
lemma choose?_cases {R : Mapping → Mapping → Prop} (hrefl : ∀ m, R m m) {onLine : List Mapping}
    (h : onLine.Pairwise R) (column : UInt32) :
    (onLine = [] ∧ choose? onLine column = none)
      ∨ ∃ m ∈ onLine, choose? onLine column = some m
        ∧ ((m.column ≤ column ∧ ∀ x ∈ onLine, x.column ≤ column → R x m)
          ∨ ∀ x ∈ onLine, column < x.column ∧ R m x) := by
  rw [choose?]
  cases hlast : (onLine.filter (·.column ≤ column)).getLast? with
  | some m =>
      obtain ⟨before, hbefore⟩ := List.getLast?_eq_some_iff.1 hlast
      have hmem : m ∈ onLine.filter (·.column ≤ column) := by simp [hbefore]
      obtain ⟨hm, hle⟩ := List.mem_filter.1 hmem
      refine Or.inr ⟨m, hm, rfl, Or.inl ⟨of_decide_eq_true hle, fun x hx hxle => ?_⟩⟩
      have hsorted := h.filter (p := (·.column ≤ column))
      rw [hbefore, List.pairwise_append] at hsorted
      have hxmem : x ∈ before ++ [m] := hbefore ▸ List.mem_filter.2 ⟨hx, decide_eq_true hxle⟩
      rcases List.mem_append.1 hxmem with hx | hx
      · exact hsorted.2.2 x hx m List.mem_cons_self
      · rw [List.mem_singleton.1 hx]
        exact hrefl m
  | none =>
      have hnone : ∀ x ∈ onLine, column < x.column := by
        intro x hx
        refine UInt32.not_le.1 fun hle => ?_
        have hmem : x ∈ onLine.filter (·.column ≤ column) :=
          List.mem_filter.2 ⟨hx, decide_eq_true hle⟩
        rw [List.getLast?_eq_none_iff.1 hlast] at hmem
        cases hmem
      cases onLine with
      | nil => exact Or.inl ⟨rfl, rfl⟩
      | cons m rest =>
          refine Or.inr ⟨m, List.mem_cons_self, rfl, Or.inr fun x hx => ⟨hnone x hx, ?_⟩⟩
          rcases List.mem_cons.1 hx with rfl | hx
          · exact hrefl x
          · exact List.rel_of_pairwise_cons h hx

/-! ## Any map -/

/-- The mappings on a line go from left to right. -/
lemma pairwise_onLine {ms : List Mapping} (h : ms.Pairwise Mapping.Ahead) (line : UInt32) :
    (ms.filter (·.line == line)).Pairwise fun a b => a.column ≤ b.column := by
  refine (h.filter _).imp_of_mem fun {a b} ha hb hab => ?_
  have hline : a.line = b.line :=
    (eq_of_beq (List.mem_filter.1 ha).2).trans (eq_of_beq (List.mem_filter.1 hb).2).symm
  rcases hab with hlt | ⟨-, hle⟩
  · exact absurd hline (UInt32.ne_of_lt hlt)
  · exact hle

/-- The links that mappings say. -/
def linksOf (sources names : List String) (ms : List Mapping) : List Link :=
  ms.filterMap (Mapping.link? sources names)

lemma mem_linksOf {sources names : List String} {ms : List Mapping} {l : Link} :
    l ∈ linksOf sources names ms ↔ ∃ m ∈ ms, m.link? sources names = some l := List.mem_filterMap

/-- The resolver of a map that has these mappings. -/
def Resolver.reading (map : SourceMap) (ms : List Mapping) : Resolver where
  sources := map.sources.map (underRoot (map.sourceRoot.getD ""))
  names := map.names
  mappings := Mapping.sort (ms.filter (·.origin.isSome))

section

variable {map : SourceMap} {ms : List Mapping} {m : Mapping} {l : Link} {o : Origin} {p : Place}

lemma Resolver.ofMap_of_decode (h : map.decode = .ok ms) : Resolver.ofMap map = .ok (.reading map ms) := by
  rw [Resolver.ofMap, h]
  rfl

lemma pairwise_reading (map : SourceMap) (ms : List Mapping) :
    (Resolver.reading map ms).mappings.Pairwise Mapping.Ahead := Mapping.pairwise_sort _

lemma mem_onLine : m ∈ (Resolver.reading map ms).mappings.filter (·.line == line)
    ↔ m ∈ ms ∧ m.origin.isSome = true ∧ m.line = line := by
  rw [List.mem_filter, beq_iff_eq]
  simp only [Resolver.reading, Mapping.sort]
  rw [List.mem_mergeSort, List.mem_filter, and_assoc]

/-- The place is seen from the root. -/
lemma Resolver.resolve?_reading (ms : List Mapping) (h : o.place? map.sources map.names = some p) :
    (Resolver.reading map ms).resolve? o
      = some ⟨underRoot (map.sourceRoot.getD "") p.source, p.line, p.column, p.name⟩ := by
  obtain ⟨source, line, column, index⟩ := o
  obtain ⟨text, line', column', name⟩ := p
  obtain ⟨hsource, hline, hcolumn, hname⟩ := Origin.place?_eq_some_iff.1 h
  simp only at hsource hline hcolumn hname
  subst hline hcolumn
  have hnames : (index.bind fun n => map.names[n.toNat]?) = name := by
    cases hname with
    | none => rfl
    | some hi => exact hi
  rw [resolve?]
  simp only [reading, List.getElem?_map, hsource, hnames]
  rfl

/-- A link on the line that has a place is said by a mapping that is looked at. -/
lemma exists_mem_onLine (hl : l ∈ linksOf map.sources map.names ms) (hline : l.line = line)
    (hplace : l.place ≠ none) :
    ∃ m ∈ (Resolver.reading map ms).mappings.filter (·.line == line), m.column = l.column := by
  obtain ⟨m, hm, hsays⟩ := mem_linksOf.1 hl
  obtain ⟨p, hp⟩ := Option.ne_none_iff_exists'.1 hplace
  obtain ⟨o, ho, -⟩ := Mapping.exists_origin hsays hp
  obtain ⟨hmline, hmcolumn, -⟩ := Mapping.link?_eq_some_iff.1 hsays
  exact ⟨m, mem_onLine.2 ⟨hm, by rw [ho]; rfl, hmline.trans hline⟩, hmcolumn⟩

/-- **Looking up.**  If the mappings of a map stay within its tables, positions are looked up as
these mappings say. -/
theorem answers_find? (hms : ∀ m ∈ ms, m.Within ⟨map.sources.length, map.names.length⟩)
    (line column : UInt32) : Answers map.sourceRoot (linksOf map.sources map.names ms) line column
      ((Resolver.reading map ms).find? line column) := by
  rw [Resolver.find?]
  rcases choose?_cases (fun _ => UInt32.le_refl _) (pairwise_onLine (pairwise_reading map ms) line)
    column with
    ⟨hempty, hchoose⟩ | ⟨m, hm, hchoose, hnearest⟩
  · rw [hchoose]
    intro l hl hline
    by_contra hplace
    obtain ⟨m, hm, -⟩ := exists_mem_onLine hl hline hplace
    rw [hempty] at hm
    cases hm
  · obtain ⟨hmem, horigin, hline⟩ := mem_onLine.1 hm
    obtain ⟨o, ho⟩ := Option.isSome_iff_exists.1 horigin
    obtain ⟨l, hl⟩ := Mapping.exists_link?_iff.2 (hms m hmem)
    obtain ⟨hlline, hlcolumn, -⟩ := Mapping.link?_eq_some_iff.1 hl
    obtain ⟨p, hp, hplace⟩ := Mapping.exists_place hl ho
    have hresolve := Resolver.resolve?_reading ms hplace
    simp only [hchoose, Option.bind_eq_bind, Option.bind_some, ho, hresolve]
    refine ⟨l, mem_linksOf.2 ⟨m, hmem, hl⟩, p, hlline.symm.trans hline, hp, ?_, rfl⟩
    rw [Nearest, ← hlcolumn]
    rcases hnearest with ⟨hle, hmax⟩ | hmin
    · refine Or.inl ⟨hle, fun l' hl' hline' hplace' hle' => ?_⟩
      obtain ⟨m', hm', hcolumn'⟩ := exists_mem_onLine hl' hline' hplace'
      rw [← hcolumn'] at hle' ⊢
      exact hmax m' hm' hle'
    · refine Or.inr fun l' hl' hline' hplace' => ?_
      obtain ⟨m', hm', hcolumn'⟩ := exists_mem_onLine hl' hline' hplace'
      rw [← hcolumn']
      exact hmin m' hm'

end

/-! ## Written maps -/

/-- **The mappings of a builder come back from its map**, in order and each once, if they stay within
its tables. -/
theorem decode_toMap {b : Builder}
    (h : ∀ m ∈ b.mappings, m.Within ⟨b.sourceNames.length, b.names.length⟩) :
    b.toMap.decode = .ok (Mapping.sort b.mappings).eraseReps := by
  have hsorted := (Mapping.pairwise_sort b.mappings).sublist (sublist_eraseReps _)
  rw [SourceMap.decode]
  simp only [Builder.toMap, String.toList_ofList]
  exact Mapping.decodeAll_encodeAll hsorted fun m hm => h m (Mapping.mem_eraseReps_sort.1 hm)

lemma Builder.Say.mem_iff {sources names : List String} {ms : List Mapping} {links : List Link}
    (h : Builder.Say sources names ms links) (l : Link) : l ∈ linksOf sources names ms ↔ l ∈ links := by
  induction h with
  | nil => rfl
  | cons hfirst _ ih =>
      rw [linksOf, List.filterMap_cons, hfirst, List.mem_cons, List.mem_cons, ← ih, linksOf]

lemma Builder.Say.within {sources names : List String} {ms : List Mapping} {links : List Link}
    (h : Builder.Say sources names ms links) :
    ∀ m ∈ ms, m.Within ⟨sources.length, names.length⟩ := by
  induction h with
  | nil => exact List.forall_mem_nil _
  | cons hfirst _ ih => exact List.forall_mem_cons.2 ⟨Mapping.exists_link?_iff.1 ⟨_, hfirst⟩, ih⟩

namespace Construction

/-- A construction that mentions no more sources and names than an index can number. -/
structure Fits (c : Construction) : Prop where
  sources : c.sources.card ≤ UInt32.size
  names : c.names.card ≤ UInt32.size

/-- The map of a builder answers for what was added. -/
lemma exists_resolver {c : Construction} (h : c.Fits) :
    ∃ b r, c.builder? = some b ∧ Resolver.ofMap b.toMap = .ok r
      ∧ ∀ line column, Answers c.root c.links line column (r.find? line column) := by
  obtain ⟨b, hb, hbuilds⟩ := exists_builder c h.sources h.names
  have hwithin := hbuilds.links.within
  refine ⟨b, _, hb, Resolver.ofMap_of_decode (decode_toMap hwithin), fun line column => ?_⟩
  have hlinks : ∀ l, l ∈ linksOf b.sourceNames b.names (Mapping.sort b.mappings).eraseReps
      ↔ l ∈ c.links := by
    intro l
    rw [← hbuilds.links.mem_iff, mem_linksOf, mem_linksOf]
    simp only [Mapping.mem_eraseReps_sort]
  rw [← hbuilds.root, ← Answers.congr hlinks]
  exact answers_find? (fun m hm => hwithin m (Mapping.mem_eraseReps_sort.1 hm)) line column

/-- **Positions survive.**  However a builder is made, its map can be read, and every position is
answered as the links that were added say; and where no two links share a position, a builder that
was made in any other order answers the same. -/
theorem find?_of_construction {c : Construction} (h : c.Fits) :
    ∃ b r, c.builder? = some b ∧ Resolver.ofMap b.toMap = .ok r
      ∧ (∀ line column, Answers c.root c.links line column (r.find? line column))
      ∧ ((∀ l ∈ c.links, ∀ l' ∈ c.links, l.line = l'.line → l.column = l'.column → l = l') →
        ∀ c' : Construction, c'.Fits → c'.root = c.root → c'.links.Perm c.links →
          ∃ b' r', c'.builder? = some b' ∧ Resolver.ofMap b'.toMap = .ok r'
            ∧ ∀ line column, r'.find? line column = r.find? line column) := by
  obtain ⟨b, r, hb, hr, hanswers⟩ := exists_resolver h
  refine ⟨b, r, hb, hr, hanswers, fun hpositions c' h' hroot hperm => ?_⟩
  obtain ⟨b', r', hb', hr', hanswers'⟩ := exists_resolver h'
  refine ⟨b', r', hb', hr', fun line column => Answers.unique hpositions ?_ (hanswers line column)⟩
  rw [← hroot, ← Answers.congr fun l => hperm.mem_iff]
  exact hanswers' line column

/-- One link with a name. -/
def part : Construction := (start none).link ⟨0, 4, some ⟨"b", 2, 1, some "f"⟩⟩

/-- A link, and a part one line below. -/
def whole : Construction :=
  (((start (some "out")).rooted "src").link ⟨0, 0, some ⟨"a", 0, 0, none⟩⟩).merged part 1

/-- The part first, and then the link. -/
def partFirst : Construction :=
  (((start none).merged part 1).link ⟨0, 0, some ⟨"a", 0, 0, none⟩⟩).rooted "src"

/-- Behind the part, its place is found, whichever came first. -/
theorem find?_of_construction_merged : ∃ b r b' r',
    whole.builder? = some b ∧ Resolver.ofMap b.toMap = .ok r
      ∧ partFirst.builder? = some b' ∧ Resolver.ofMap b'.toMap = .ok r'
      ∧ r.find? 1 9 = some ⟨"src/b", 2, 1, some "f"⟩ ∧ r'.find? 1 9 = r.find? 1 9 := by
  have hpositions : ∀ l ∈ whole.links, ∀ l' ∈ whole.links, l.line = l'.line →
      l.column = l'.column → l = l' := by decide
  obtain ⟨b, r, hb, hr, hanswers, horder⟩ :=
    find?_of_construction (c := whole) ⟨by decide, by decide⟩
  obtain ⟨b', r', hb', hr', hsame⟩ :=
    horder hpositions partFirst ⟨by decide, by decide⟩ rfl (by decide)
  refine ⟨b, r, b', r', hb, hr, hb', hr', ?_, hsame 1 9⟩
  refine Answers.unique hpositions (hanswers 1 9) ?_
  refine ⟨⟨1, 4, some ⟨"b", 2, 1, some "f"⟩⟩, by decide, ⟨"b", 2, 1, some "f"⟩, rfl, rfl, ?_, by decide +kernel⟩
  exact Or.inl ⟨by decide, by decide⟩

end Construction
end Rebuild.SourceMap
