import Rebuild.Path.Normal
import Rebuild.Proofs.Text

/-!
# Normal forms are stable

`Path.normalize` gives a path whose components are a *stem* (nothing, `..`, the root, or the root
and `..`) with names below it.  Three facts lead to `normalize_normalize`.

* **Shape.**  `normalSteps_normal`: whatever the path, its normal steps have that shape.
* **Fixed points.**  `normalSteps_of_normal`: steps of that shape are normal already.
* **Text.**  `components_ofComponents`: steps of that shape can be read back from their text, as no
  name holds a slash or stands for a step of another kind.
-/

namespace Rebuild

namespace Path

/-! ## The shape of normal forms -/

/-- A text that names a file or directory where it stands between two slashes. -/
def IsName (t : String) : Prop :=
  t.toList ≠ [] ∧ t.toList ≠ ['.'] ∧ t.toList ≠ ['.', '.'] ∧ '/' ∉ t.toList

/-- What a normal form opens with. -/
inductive Stem : List Component → Prop where
  | nothing : Stem []
  | above : Stem [.parent]
  | root : Stem [.root]
  | aboveRoot : Stem [.root, .parent]

/-- Names below a stem. -/
def NormalForm (steps : List Component) : Prop :=
  ∃ (stem : List Component) (names : List String), Stem stem ∧ (∀ t ∈ names, IsName t) ∧
    steps = stem ++ names.map .name

/-- A step that can follow another one. -/
inductive Follows : Component → Prop where
  | current : Follows .current
  | parent : Follows .parent
  | name {t : String} (h : IsName t) : Follows (.name t)

lemma follows_of_ofPiece? {piece : List Char} {c : Component} (hslash : '/' ∉ piece)
    (h : Component.ofPiece? piece = some c) : Follows c := by
  rw [Component.ofPiece?] at h
  split_ifs at h with h₁ h₂
  · cases h
    exact .parent
  · cases h
    simp only [not_or] at h₁
    exact .name ⟨by simpa using h₁.1, by simpa using h₁.2, by simpa using h₂, by simpa using hslash⟩

/-- Only the first component can be the root. -/
lemma components_eq (p : Path) : ∃ first rest, (first = [] ∨ first = [.root]) ∧
    (∀ c ∈ rest, Follows c) ∧ p.components = first ++ rest := by
  rw [components, pieces]
  have hslash : ∀ piece ∈ Text.split '/' p.text.toList, '/' ∉ piece :=
    fun piece h => Text.not_mem_of_mem_split h
  cases hs : Text.split '/' p.text.toList with
  | nil => exact absurd hs (Text.split_ne_nil _ _)
  | cons piece more =>
      rw [hs] at hslash
      have hmore : ∀ c ∈ (more.map fun q => (q, Component.ofPiece? q)).filterMap Prod.snd,
          Follows c := by
        intro c hc
        obtain ⟨q, hq, hqc⟩ := List.mem_filterMap.1 hc
        obtain ⟨r, hr, rfl⟩ := List.mem_map.1 hq
        exact follows_of_ofPiece? (hslash r (List.mem_cons_of_mem _ hr)) hqc
      simp only [List.filterMap_cons]
      cases hf : Component.ofFirstPiece? p.isAbsolute piece with
      | none => exact ⟨[], _, Or.inl rfl, hmore, rfl⟩
      | some c =>
          rw [Component.ofFirstPiece?] at hf
          split_ifs at hf with h₁ h₂ h₃
          · cases hf
            exact ⟨[.root], _, Or.inr rfl, hmore, rfl⟩
          · cases hf
            refine ⟨[], _, Or.inl rfl, ?_, rfl⟩
            exact List.forall_mem_cons.2 ⟨.current, hmore⟩
          · refine ⟨[], _, Or.inl rfl, ?_, rfl⟩
            have hc := follows_of_ofPiece? (hslash piece List.mem_cons_self) hf
            exact List.forall_mem_cons.2 ⟨hc, hmore⟩

/-- One more step keeps a normal form normal. -/
lemma pushNormal_normal {done : List Component} {c : Component} (hc : Follows c)
    (hdone : NormalForm done.reverse) : NormalForm (pushNormal done c).reverse := by
  obtain ⟨stem, names, hstem, hnames, heq⟩ := hdone
  obtain rfl : done = (stem ++ names.map Component.name).reverse := by
    rw [← heq, List.reverse_reverse]
  cases hc with
  | current => exact ⟨stem, names, hstem, hnames, by simp [pushNormal]⟩
  | @name t ht =>
      refine ⟨stem, names ++ [t], hstem, ?_, by simp [pushNormal]⟩
      intro u hu
      rcases List.mem_append.1 hu with hu | hu
      · exact hnames u hu
      · rwa [List.mem_singleton.1 hu]
  | parent =>
      rcases List.eq_nil_or_concat names with rfl | ⟨before, t, rfl⟩
      · cases hstem with
        | nothing => exact ⟨_, [], .above, by simp, rfl⟩
        | above => exact ⟨_, [], .nothing, by simp, rfl⟩
        | root => exact ⟨_, [], .aboveRoot, by simp, rfl⟩
        | aboveRoot => exact ⟨_, [], .root, by simp, rfl⟩
      · refine ⟨stem, before, hstem, fun u hu => hnames u (by simp [hu]), ?_⟩
        simp [pushNormal]

lemma foldl_pushNormal_normal {steps done : List Component} (hsteps : ∀ c ∈ steps, Follows c)
    (hdone : NormalForm done.reverse) : NormalForm (steps.foldl pushNormal done).reverse := by
  induction steps generalizing done with
  | nil => exact hdone
  | cons c steps ih =>
      have hc := hsteps c List.mem_cons_self
      exact ih (fun d hd => hsteps d (List.mem_cons_of_mem _ hd)) (pushNormal_normal hc hdone)

/-- The normal steps of any path are names below a stem. -/
lemma normalSteps_normal (p : Path) : NormalForm (normalSteps p.components) := by
  obtain ⟨first, rest, hfirst, hrest, heq⟩ := components_eq p
  rw [normalSteps, heq, List.foldl_append]
  refine foldl_pushNormal_normal hrest ?_
  rcases hfirst with rfl | rfl
  · exact ⟨[], [], .nothing, by simp, rfl⟩
  · exact ⟨[.root], [], .root, by simp, rfl⟩

/-! ## Fixed points -/

lemma foldl_pushNormal_names (names : List String) (done : List Component) :
    (names.map Component.name).foldl pushNormal done
      = (names.map Component.name).reverse ++ done := by
  induction names generalizing done with
  | nil => rfl
  | cons t names ih => simp [pushNormal, ih]

/-- Steps that are names below a stem are normal already. -/
lemma normalSteps_of_normal {steps : List Component} (h : NormalForm steps) :
    normalSteps steps = steps := by
  obtain ⟨stem, names, hstem, -, rfl⟩ := h
  have hpush : stem.foldl pushNormal [] = stem.reverse := by cases hstem <;> rfl
  rw [normalSteps, List.foldl_append, foldl_pushNormal_names, hpush]
  simp

/-! ## Text -/

lemma ofPiece?_name {t : String} (h : IsName t) :
    Component.ofPiece? t.toList = some (.name t) := by
  obtain ⟨h₁, h₂, h₃, -⟩ := h
  rw [Component.ofPiece?]
  rw [if_neg (not_or.2 ⟨h₁, h₂⟩), if_neg h₃, String.ofList_toList]

lemma filterMap_ofPiece?_names {names : List String} (h : ∀ t ∈ names, IsName t) :
    (names.map String.toList).filterMap Component.ofPiece? = names.map .name := by
  induction names with
  | nil => rfl
  | cons t names ih =>
      have hname := ofPiece?_name (h t List.mem_cons_self)
      simp only [List.map_cons, List.filterMap_cons, hname]
      rw [ih fun u hu => h u (List.mem_cons_of_mem _ hu)]

/-- The components of a text that is put together from pieces. -/
lemma components_of_split {p : Path} {first : List Char} {rest : List (List Char)}
    (h : Text.split '/' p.text.toList = first :: rest) :
    p.components = (Component.ofFirstPiece? p.isAbsolute first).toList ++
      rest.filterMap Component.ofPiece? := by
  have hrest : (rest.map fun q => (q, Component.ofPiece? q)).filterMap Prod.snd
      = rest.filterMap Component.ofPiece? := by
    rw [List.filterMap_map]
    rfl
  rw [components, pieces]
  rw [h]
  simp only [List.filterMap_cons, hrest]
  cases Component.ofFirstPiece? p.isAbsolute first <;> rfl

/-- The pieces of a text that was put together from them. -/
lemma split_render {texts : List String} (hne : texts ≠ []) (h : ∀ t ∈ texts, '/' ∉ t.toList) :
    Text.split '/' ("/".intercalate texts).toList = texts.map String.toList := by
  rw [String.toList_intercalate, Text.intercalate_eq_join]
  refine Text.split_join (by simpa using hne) fun piece hpiece => ?_
  obtain ⟨t, ht, rfl⟩ := List.mem_map.1 hpiece
  exact h t ht

@[simp] lemma text_comp_name : Component.text ∘ Component.name = id := rfl

/-- Names below a relative stem, which is no more than one piece of text. -/
lemma components_relative (first : String) {names : List String} {c : Component}
    (hfirst : '/' ∉ first.toList) (hnames : ∀ t ∈ names, IsName t)
    (hc : Component.ofFirstPiece? false first.toList = some c) :
    components ⟨"/".intercalate (first :: names)⟩ = c :: names.map .name := by
  have hsplit : Text.split '/' ("/".intercalate (first :: names)).toList
      = first.toList :: names.map String.toList := by
    refine split_render (by simp) fun t ht => ?_
    rcases List.mem_cons.1 ht with rfl | ht
    · exact hfirst
    · exact (hnames t ht).2.2.2
  have habs : isAbsolute ⟨"/".intercalate (first :: names)⟩ = false := by
    rw [isAbsolute]
    rw [String.toList_intercalate, Text.intercalate_eq_join]
    cases hf : first.toList with
    | nil => simp [Component.ofFirstPiece?, hf] at hc
    | cons d ds =>
        rw [hf] at hfirst
        simp only [List.mem_cons, not_or] at hfirst
        cases names <;> simpa [Text.join, hf] using Ne.symm hfirst.1
  have hpieces := components_of_split (p := ⟨"/".intercalate (first :: names)⟩) hsplit
  rw [hpieces, habs, hc, filterMap_ofPiece?_names hnames]
  rfl

/-- Pieces below the root. -/
lemma components_rooted (texts : List String) (hne : texts ≠ [])
    (h : ∀ t ∈ texts, '/' ∉ t.toList) :
    components ⟨"/" ++ "/".intercalate texts⟩
      = .root :: (texts.map String.toList).filterMap Component.ofPiece? := by
  have hsplit : Text.split '/' ("/" ++ "/".intercalate texts).toList
      = [] :: texts.map String.toList := by
    rw [String.toList_append, ← split_render hne h]
    rfl
  have hpieces := components_of_split (p := ⟨"/" ++ "/".intercalate texts⟩) hsplit
  have habs : isAbsolute ⟨"/" ++ "/".intercalate texts⟩ = true := by
    rw [isAbsolute]
    simp
  rw [hpieces, habs]
  rfl

/-- Steps of the shape of a normal form can be read back from their text. -/
lemma components_ofComponents {steps : List Component} (h : NormalForm steps) :
    (ofComponents steps).components = steps := by
  obtain ⟨stem, names, hstem, hnames, rfl⟩ := h
  have hslash : ∀ t ∈ names, '/' ∉ t.toList := fun t ht => (hnames t ht).2.2.2
  rw [ofComponents]
  cases hstem with
  | nothing =>
      cases names with
      | nil => decide
      | cons t names =>
          have ht := hnames t List.mem_cons_self
          have hc : Component.ofFirstPiece? false t.toList = some (.name t) := by
            rw [Component.ofFirstPiece?]
            rw [if_neg ht.1, if_neg ht.2.1, ofPiece?_name ht]
          have := components_relative t (hslash t List.mem_cons_self)
            (fun u hu => hnames u (List.mem_cons_of_mem _ hu)) hc
          simpa [render, Component.text] using this
  | above =>
      have := components_relative ".." (by decide) hnames (c := .parent) (by decide)
      simpa [render, Component.text] using this
  | root =>
      cases names with
      | nil => decide
      | cons t names =>
          have := components_rooted (t :: names) (by simp) hslash
          rw [filterMap_ofPiece?_names hnames] at this
          simpa [render, Component.text] using this
  | aboveRoot =>
      have hdots : ∀ t ∈ ".." :: names, '/' ∉ t.toList := by
        simpa using hslash
      have := components_rooted (".." :: names) (by simp) hdots
      rw [List.map_cons, List.filterMap_cons, filterMap_ofPiece?_names hnames] at this
      simpa [render, Component.text, Component.ofPiece?] using this

/-- **Normal forms are stable**, character for character. -/
theorem normalize_normalize (p : Path) : p.normalize.normalize = p.normalize := by
  have hnormal := normalSteps_normal p
  simp only [normalize]
  rw [components_ofComponents hnormal, normalSteps_of_normal hnormal]

lemma normalize_of_mem_map {ps : List Path} {p : Path} (h : p ∈ ps.map normalize) :
    p.normalize = p := by
  obtain ⟨q, -, rfl⟩ := List.mem_map.1 h
  exact normalize_normalize q

end Path
end Rebuild
