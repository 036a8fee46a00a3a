import Rebuild.Watch.Filter
import Rebuild.Proofs.Glob.Literal
import Rebuild.Proofs.Path.Relative

/-!
# What a filter accepts

* **Texts.**  `PathFilter.accepts_iff`: of the texts a filter was made of, one of the patterns finds the
  path that the filter sees, and none of the ignored ones does.
* **Directories.**  `Glob.finds_iff`: the pattern of a directory finds the paths that go through it.
* **The path that is seen.**  `PathFilter.relative?_eq`: for a path in normal form below the root, it is
  the text of the steps below the root.
-/

namespace Rebuild

namespace Glob

/-- The text writes a pattern that matches the path. -/
def Finds (text : String) (p : Path) : Prop :=
  ∃ pattern, parse text = .ok pattern ∧ pattern.matches p.text.toUTF8.toList = true

variable {steps seen : List Component}

/-- The pattern of a directory finds the paths that go through it. -/
lemma finds_iff (hsteps : steps ≠ []) (hbackslash : ∀ c ∈ steps, '\\' ∉ c.text.toList)
    (hslash : ∀ c ∈ steps, '/' ∉ c.text.toList) (hseen : ∀ c ∈ seen, '/' ∉ c.text.toList) :
    Finds (String.ofList (quoteInside (Path.letters steps)))
        ⟨"/".intercalate (seen.map Component.text)⟩
      ↔ ∃ more, more ≠ [] ∧
        seen.map (fun c => c.text.toList) = steps.map (fun c => c.text.toList) ++ more := by
  have hnot : '\\' ∉ Path.letters steps := by
    intro hmem
    rcases Text.mem_join hmem with h | ⟨piece, hpiece, h⟩
    · simp at h
    · obtain ⟨c, hc, rfl⟩ := List.mem_map.1 hpiece
      exact hbackslash c hc h
  have hsplit : ∀ {steps : List Component}, steps ≠ [] → (∀ c ∈ steps, '/' ∉ c.text.toList) →
      Text.split '/' (Path.letters steps) = steps.map fun c => c.text.toList :=
    fun hne h => Text.split_join (by simpa using hne) (by simpa using h)
  rw [Finds, parse_quoteInside String.toList_ofList hnot]
  simp only [Except.ok.injEq, exists_eq_left', matches_insideOf_iff, Path.toList_intercalate]
  constructor
  · rintro ⟨rest, hrest⟩
    have hne : seen ≠ [] := by
      rintro rfl
      simp [Path.letters, Text.join] at hrest
    have hpieces := congrArg (Text.split '/') hrest
    rw [hsplit hne hseen, Text.split_append_sep, hsplit hsteps hslash] at hpieces
    exact ⟨_, Text.split_ne_nil _ _, hpieces⟩
  · rintro ⟨more, hmore, hpieces⟩
    refine ⟨Text.join ['/'] more, ?_⟩
    rw [Path.letters, hpieces, Text.join_append _ hmore (by simpa using hsteps)]
    rfl

end Glob

namespace PathFilter

variable {root p : Path} {patterns ignored texts : List String} {f : PathFilter}

/-- One of the patterns that were read matches the path if one of the texts finds it. -/
lemma any_iff {read : List Glob.Pattern} (h : readPatterns texts = .ok read) (p : Path) :
    read.any (·.matches p.text.toUTF8.toList) = true ↔ ∃ t ∈ texts, Glob.Finds t p := by
  induction texts generalizing read with
  | nil =>
      cases h
      simp
  | cons t texts ih =>
      rw [readPatterns, List.mapM_cons, bind_eq_ok_iff] at h
      obtain ⟨pattern, hpattern, h⟩ := h
      obtain ⟨more, hmore, hread⟩ := bind_eq_ok_iff.1 h
      cases hread
      have hparse : Glob.parse t = .ok pattern := by
        split at hpattern
        · cases hpattern
          assumption
        · cases hpattern
      rw [List.any_cons, Bool.or_eq_true, ih hmore, List.exists_mem_cons_iff]
      simp [Glob.Finds, hparse]

lemma exists_of_ofTexts (h : ofTexts root patterns ignored = .ok f) : ∃ included excluded,
    readPatterns patterns = .ok included ∧ readPatterns ignored = .ok excluded
      ∧ f = ⟨root, included, excluded⟩ := by
  rw [ofTexts, bind_eq_ok_iff] at h
  obtain ⟨included, hincluded, h⟩ := h
  obtain ⟨excluded, hexcluded, h⟩ := bind_eq_ok_iff.1 h
  cases h
  exact ⟨included, excluded, hincluded, hexcluded, rfl⟩

lemma root_of_ofTexts (h : ofTexts root patterns ignored = .ok f) : f.root = root := by
  obtain ⟨_, _, -, -, rfl⟩ := exists_of_ofTexts h
  rfl

lemma accepts_iff (h : ofTexts root patterns ignored = .ok f) :
    f.accepts p = true ↔ ∃ seen, f.relative? p = some seen ∧
      (∃ t ∈ patterns, Glob.Finds t seen) ∧ ∀ t ∈ ignored, ¬Glob.Finds t seen := by
  obtain ⟨included, excluded, hpatterns, hignored, rfl⟩ := exists_of_ofTexts h
  rw [accepts]
  cases PathFilter.relative? ⟨root, included, excluded⟩ p with
  | none => simp
  | some seen =>
      simp only [Bool.and_eq_true, Bool.not_eq_true', ← Bool.not_eq_true, any_iff hpatterns,
        any_iff hignored, Option.some.injEq, exists_eq_left']
      simp

/-- What the filter sees of a path in normal form that is below its root. -/
lemma relative?_eq {f : PathFilter} {p : Path} {rest : List Component}
    (hroot : f.root.isAbsolute = true) (hp : p.normalize = p) (hrest : rest ≠ [])
    (h : (f.root.join p).components = f.root.components ++ rest) :
    f.relative? p = some ⟨"/".intercalate (rest.map Component.text)⟩ := by
  cases habsolute : p.isAbsolute with
  | true =>
      rw [Path.join, if_pos habsolute] at h
      rw [relative?, if_pos habsolute]
      exact Path.relativeTo?_of_normal hp (Path.components_ne_nil hroot) hrest h
  | false =>
      have hown := Path.components_of_join hroot hp habsolute h
      have htext := Path.text_of_normal hp habsolute (hown ▸ hrest)
      rw [hown] at htext
      rw [relative?, if_neg (by simp [habsolute]), ← htext]

end PathFilter

end Rebuild
