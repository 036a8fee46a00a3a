import Mathlib.Tactic.Common
import Rebuild.Imports.Passthrough
import Rebuild.Proofs.Imports.Calls
import Rebuild.Proofs.Path.Table

/-!
# What a scan finds

The scan of a text lists the specifiers of three patterns, and a file needs the files of these.

* **The scan.**  `covers_relative`: no call of `require` is missed, and what is listed is a specifier
  that stands in the text.
* **What a file needs.**  `mem_needed`: what its task declares and what the scan finds, except the file
  itself.  Both together are `requires_found`.
-/

namespace Rebuild.Imports

open Text Pattern

/-! ## The scan -/

section

variable {seen xs : List String} {x : String}

lemma mem_distinct : x ∈ distinct seen xs ↔ x ∈ xs ∧ x ∉ seen := by
  fun_induction distinct seen xs with
  | case1 => simp
  | case2 seen y xs hy ih =>
      rw [ih, List.mem_cons]
      refine and_congr_left fun hx => ⟨.inr, ?_⟩
      rintro (rfl | hmem)
      · exact absurd hy hx
      · exact hmem
  | case3 seen y xs hy ih =>
      rw [List.mem_cons, ih, List.mem_cons, List.mem_cons]
      by_cases hxy : x = y
      · subst hxy
        simp [hy]
      · simp [hxy]

lemma nodup_distinct (seen xs : List String) : (distinct seen xs).Nodup := by
  fun_induction distinct seen xs with
  | case1 => exact List.nodup_nil
  | case2 _ _ _ _ ih => exact ih
  | case3 seen y xs _ ih =>
      refine List.nodup_cons.2 ⟨fun hmem => ?_, ih⟩
      exact (mem_distinct.1 hmem).2 List.mem_cons_self

end

lemma parts_mem {p q : Pattern} (hp : p ∈ [importLine, requireCall, atImportLine]) (hq : q ∈ p.parts) :
    q = specifierBody isUnquoted ∨ q = specifierBody isBareSpecifier := by
  have himport : importLine.parts = [specifierBody isUnquoted] := rfl
  have hrequire : requireCall.parts = [specifierBody isUnquoted] := rfl
  have hat : atImportLine.parts = [specifierBody isBareSpecifier] := rfl
  simp only [List.mem_cons, List.not_mem_nil, or_false] at hp
  rcases hp with rfl | rfl | rfl
  · rw [himport] at hq
    exact .inl (List.mem_singleton.1 hq)
  · rw [hrequire] at hq
    exact .inl (List.mem_singleton.1 hq)
  · rw [hat] at hq
    exact .inr (List.mem_singleton.1 hq)

lemma isRelative_of_mem_relative {content s : String} (h : s ∈ relative content) :
    IsRelative s.toList ∧ s.toList <:+: content.toList := by
  obtain ⟨p, hp, hs⟩ := List.mem_flatMap.1 (mem_distinct.1 h).1
  obtain ⟨hinside, q, hq, last, rest, inner, inner', htakes⟩ := exists_takes_of_mem_findAll hs
  refine ⟨?_, hinside⟩
  rcases parts_mem hp hq with rfl | rfl
  · exact isRelative_of_takes (fun _ hc => hc) htakes
  · refine isRelative_of_takes (fun c hc => ?_) htakes
    rw [isBareSpecifier, Bool.and_eq_true, Bool.and_eq_true] at hc
    exact hc.1.1

lemma mem_relative_of_call {content : String} {c : RequireCall} {u v : List Char}
    (h : content.toList = u ++ c.text ++ v) : String.ofList c.specifier ∈ relative content := by
  refine mem_distinct.2 ⟨List.mem_flatMap.2 ⟨requireCall, by simp, ?_⟩, List.not_mem_nil⟩
  rw [h, List.append_assoc]
  exact (marks_text c _ v).mem_findAll (endsBefore_text u c v)

/-- The list has what every call of `require` is for, whatever is around the call, and nothing that is
no specifier of a file in the text. -/
structure Covers (content : String) (specifiers : List String) : Prop where
  calls : ∀ (c : RequireCall) (u v : List Char), content.toList = u ++ c.text ++ v →
    String.ofList c.specifier ∈ specifiers
  nodup : specifiers.Nodup
  isRelative : ∀ s ∈ specifiers, IsRelative s.toList
  occurs : ∀ s ∈ specifiers, s.toList <:+: content.toList

lemma covers_relative (content : String) : Covers content (relative content) where
  calls _ _ _ h := mem_relative_of_call h
  nodup := nodup_distinct _ _
  isRelative _ hs := (isRelative_of_mem_relative hs).1
  occurs _ hs := (isRelative_of_mem_relative hs).2

/-- A call that is not finished swallows no call after it. -/
example : relative "require('./a require(\"../b\")" = ["../b"] := by decide +kernel

/-! ## What a file needs -/

variable {task : Task} {q : Path}

/-- A file needs what its task declares and the files of its specifiers, except itself. -/
lemma mem_needed : q ∈ task.needed ↔ compare task.path q ≠ .eq
    ∧ ((∃ p ∈ task.dependencies.getD [], compare p q = .eq)
      ∨ ∃ s ∈ relative task.content, compare (Path.resolve task.path s) q = .eq) := by
  rw [Task.needed, Std.TreeSet.mem_erase, PathSet.mem_foldl_insert, PathSet.mem_ofPaths]
  simp

/-- The list is in order, without spellings of one path and without the file of the task.  It has what
the task declares and what its text refers to, above all the file of every call of `require`. -/
structure Reports (task : Task) (needed : List Path) : Prop where
  sorted : needed.Pairwise fun p q => compare p q = .lt
  others : ∀ p ∈ needed, compare task.path p ≠ .eq
  complete : ∀ q, (∃ p ∈ needed, compare p q = .eq) ↔ compare task.path q ≠ .eq
    ∧ ((∃ p ∈ task.dependencies.getD [], compare p q = .eq)
      ∨ ∃ s ∈ relative task.content, compare (Path.resolve task.path s) q = .eq)
  calls : ∀ (c : RequireCall) (u v : List Char), task.content.toList = u ++ c.text ++ v →
    Path.resolve task.path (String.ofList c.specifier) ≠ task.path →
    ∃ p ∈ needed, compare p (Path.resolve task.path (String.ofList c.specifier)) = .eq

lemma reports_needed (h : task.path.normalize = task.path) : Reports task task.needed.toList where
  sorted := Std.TreeSet.ordered_toList
  others p hp := (mem_needed.1 (PathSet.mem_iff_toList.2 ⟨p, hp, Path.compare_self p⟩)).1
  complete q := by rw [← PathSet.mem_iff_toList, mem_needed]
  calls c u v hcall hother := by
    refine PathSet.mem_iff_toList.1 (mem_needed.2 ⟨fun hsame => hother ?_, .inr ?_⟩)
    · -- both are in normal form, so they are spelled in one way
      exact (Path.eq_of_compare h (Path.normalize_normalize _) hsame).symm
    · exact ⟨_, mem_relative_of_call hcall, Path.compare_self _⟩

/-- **No call of `require` is missed.**  Whatever is around a call, the scan finds its specifier, and the
compiler reports its file. -/
theorem requires_found : (∀ content, Covers content (relative content)) ∧
    ∀ task : Task, task.path.normalize = task.path → ∃ needed,
      passthrough task = .compiled task.content needed ∧ Reports task needed :=
  ⟨covers_relative, fun _ h => ⟨_, rfl, reports_needed h⟩⟩

/-- A call that stands after one that is not finished. -/
def laterCall : RequireCall where
  before := []
  opening := '"'
  specifier := "../b".toList
  closing := '"'
  after := []
  blank_before := by simp
  isQuote_opening := by decide
  isRelative := ⟨⟨['b'], by decide, .inr (by decide)⟩, by simp [isQuote]⟩
  isQuote_closing := by decide
  blank_after := by simp

/-- The file of the later call is reported. -/
theorem requires_found_later :
    (⟨"src/a.js"⟩ : Path).normalize = ⟨"src/a.js"⟩ ∧ ∃ needed,
      passthrough ⟨"0", ⟨"src/a.js"⟩, "require('./a require(\"../b\")", none⟩
        = .compiled "require('./a require(\"../b\")" needed
      ∧ ∃ p ∈ needed, compare p ⟨"b"⟩ = .eq := by
  have hnormal : (⟨"src/a.js"⟩ : Path).normalize = ⟨"src/a.js"⟩ := by decide +kernel
  obtain ⟨needed, hcompiled, hreports⟩ :=
    requires_found.2 ⟨"0", ⟨"src/a.js"⟩, "require('./a require(\"../b\")", none⟩ hnormal
  have hfile : Path.resolve ⟨"src/a.js"⟩ (String.ofList laterCall.specifier) = ⟨"b"⟩ := by
    decide +kernel
  have hother : Path.resolve ⟨"src/a.js"⟩ (String.ofList laterCall.specifier) ≠ ⟨"src/a.js"⟩ := by
    rw [hfile]
    decide
  have hfound := hreports.calls laterCall "require('./a ".toList [] (by decide) hother
  rw [hfile] at hfound
  exact ⟨hnormal, needed, hcompiled, hfound⟩

end Rebuild.Imports
