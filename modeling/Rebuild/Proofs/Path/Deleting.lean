import Mathlib.Data.List.Infix
import Mathlib.Logic.Relation
import Rebuild.Proofs.Path.Excursion
import Rebuild.Proofs.Path.Writing

/-!
# What normalising deletes

A `..` cancels the name that stands before it, once what stands between them has been cancelled.
`Leaves` says what repeated deletions of such pairs leave, in whatever order they are made.

* **Shape.**  `exists_components_normalize`: a normal form is the root, if the path has one, then at most
  one `..`, and then names.
* **Deletions.**  None of them changes the normal form, so steps that nothing more can be deleted from
  are the normal form of those that they were left of (`normalSteps_of_leaves`).
* **Where every `..` cancels a name.**  `exists_leaves_names`: if no beginning of the path has more `..`
  than names, all of them can be deleted.  The induction is on the steps that are still to come, behind
  the names that are left of those before.
* **Endpoint.**  `normalize_stable`.
-/

namespace Rebuild.Path

variable {p : Path} {c : Component} {steps left : List Component}

/-! ## Shape -/

/-- The root, if the path has one. -/
def anchor (p : Path) : List Component := if p.isAbsolute then [.root] else []

lemma anchor_absolute (h : p.isAbsolute = true) : p.anchor = [.root] := if_pos h

lemma anchor_relative (h : p.isAbsolute = false) : p.anchor = [] := by simp [anchor, h]

/-- Only the root stands before the other steps. -/
lemma exists_components_anchor (p : Path) :
    ∃ steps, p.components = p.anchor ++ steps ∧ .root ∉ steps := by
  cases habsolute : p.isAbsolute with
  | true =>
      have hsteps : p.components = [.root] ++ _ := components_absolute habsolute
      rw [anchor_absolute habsolute]
      exact ⟨_, hsteps, root_notMem (List.cons_ne_nil _ _) hsteps⟩
  | false =>
      rw [anchor_relative habsolute]
      exact ⟨p.components, rfl, root_notMem_components habsolute⟩

/-- The root is never taken away. -/
lemma exists_foldl_pushNormal_root (done steps : List Component) :
    ∃ done', steps.foldl pushNormal (done ++ [.root]) = done' ++ [.root] := by
  induction steps generalizing done with
  | nil => exact ⟨done, rfl⟩
  | cons c steps ih =>
      cases c with
      | root | name => exact ih (_ :: done)
      | current => exact ih done
      | parent =>
          cases done with
          | nil => exact ih [.parent]
          | cons d done =>
              rw [List.foldl_cons, List.cons_append, pushNormal_cons_parent (by simp)]
              exact ih done

lemma isAbsolute_normalize_eq (p : Path) : p.normalize.isAbsolute = p.isAbsolute := by
  cases habsolute : p.isAbsolute with
  | false => exact isAbsolute_normalize habsolute
  | true =>
      rw [← root_mem_components_iff]
      obtain ⟨done, hdone⟩ := exists_foldl_pushNormal_root []
        ((Text.split '/' p.text.toList).filterMap Component.ofPiece?)
      have hsteps : normalSteps p.components = .root :: done.reverse := by
        rw [normalSteps, components_absolute habsolute]
        show (List.foldl pushNormal ([] ++ [.root]) _).reverse = _
        rw [hdone]
        simp
      rw [normalize, components_ofComponents (normalSteps_normal p), hsteps]
      exact List.mem_cons_self

/-- Neither the root nor names can be deleted. -/
lemma plain_names (p : Path) (names : List String) :
    .current ∉ p.anchor ++ names.map .name ∧ .parent ∉ p.anchor ++ names.map .name := by
  rw [anchor]
  split_ifs <;> simp

/-- A normal form is the root, if the path has one, then no more than one `..`, and then names. -/
lemma exists_components_normalize (p : Path) : ∃ (up : List Component) (names : List String),
    (up = [] ∨ up = [.parent]) ∧ p.normalize.components = p.anchor ++ (up ++ names.map .name) := by
  have hroot : .root ∈ p.normalize.components ↔ p.isAbsolute = true := by
    rw [root_mem_components_iff, isAbsolute_normalize_eq]
  obtain ⟨stem, names, hstem, -, hsteps⟩ := normalSteps_normal p
  rw [normalize, components_ofComponents (normalSteps_normal p)] at hroot ⊢
  rw [hsteps] at hroot ⊢
  cases hstem with
  | nothing =>
      rw [anchor_relative (by simpa using hroot)]
      exact ⟨[], names, .inl rfl, rfl⟩
  | above =>
      rw [anchor_relative (by simpa using hroot)]
      exact ⟨[.parent], names, .inr rfl, rfl⟩
  | root =>
      rw [anchor_absolute (hroot.1 (by simp))]
      exact ⟨[], names, .inl rfl, rfl⟩
  | aboveRoot =>
      rw [anchor_absolute (hroot.1 (by simp))]
      exact ⟨[.parent], names, .inr rfl, rfl⟩

lemma current_notMem_components_normalize (p : Path) : .current ∉ p.normalize.components := by
  obtain ⟨up, names, hup, hsteps⟩ := exists_components_normalize p
  have hnames := (plain_names p names).1
  rw [hsteps]
  rcases hup with rfl | rfl
  · exact hnames
  · simpa using hnames

/-- Before a `..` only the root can stand, and no other `..` follows. -/
lemma eq_anchor_of_components_normalize {before after : List Component}
    (h : p.normalize.components = before ++ .parent :: after) :
    before = p.anchor ∧ .parent ∉ after := by
  obtain ⟨up, names, hup, hsteps⟩ := exists_components_normalize p
  have hnames := (plain_names p names).2
  rw [hsteps] at h
  rcases hup with rfl | rfl
  · rw [List.nil_append] at h
    exact absurd (h ▸ List.mem_append_right before List.mem_cons_self) hnames
  · rw [List.mem_append, not_or] at hnames
    obtain ⟨hbefore, -, hafter⟩ := (List.append_cons_inj_of_notMem hnames.1 hnames.2).1 h
    exact ⟨hbefore.symm, hafter ▸ hnames.2⟩

/-! ## Deletions -/

/-- One deletion: of a `.`, or of a `..` together with the name that stands before it. -/
inductive Deletes : List Component → List Component → Prop where
  | current (before after : List Component) :
      Deletes (before ++ .current :: after) (before ++ after)
  | parent (before : List Component) (t : String) (after : List Component) :
      Deletes (before ++ .name t :: .parent :: after) (before ++ after)

/-- What deletions leave. -/
abbrev Leaves : List Component → List Component → Prop := Relation.ReflTransGen Deletes

lemma Deletes.normalSteps_eq (h : Deletes steps left) : normalSteps steps = normalSteps left := by
  cases h with
  | current before after => simp only [normalSteps, List.foldl_append, List.foldl_cons, pushNormal]
  | parent before t after => simp only [normalSteps, List.foldl_append, List.foldl_cons, pushNormal]

/-- No deletion changes the normal form. -/
lemma Leaves.normalSteps_eq (h : Leaves steps left) : normalSteps steps = normalSteps left := by
  induction h with
  | refl => rfl
  | tail _ hdelete ih => rw [ih, hdelete.normalSteps_eq]

lemma foldl_pushNormal_plain (hcurrent : .current ∉ steps) (hparent : .parent ∉ steps)
    (done : List Component) : steps.foldl pushNormal done = steps.reverse ++ done := by
  induction steps generalizing done with
  | nil => rfl
  | cons c steps ih =>
      simp only [List.mem_cons, not_or] at hcurrent hparent
      have hpush : pushNormal done c = c :: done := by
        cases c with
        | root | name => rfl
        | current => exact absurd rfl hcurrent.1
        | parent => exact absurd rfl hparent.1
      rw [List.foldl_cons, hpush, ih hcurrent.2 hparent.2, List.reverse_cons, List.append_assoc]
      rfl

/-- What is left when nothing more can be deleted is the normal form. -/
lemma normalSteps_of_leaves (h : Leaves steps left) (hcurrent : .current ∉ left)
    (hparent : .parent ∉ left) : normalSteps steps = left := by
  rw [h.normalSteps_eq, normalSteps, foldl_pushNormal_plain hcurrent hparent, List.append_nil,
    List.reverse_reverse]

/-! ## Where every `..` cancels a name -/

/-- The step is a name. -/
def isName : Component → Bool
  | .name _ => true
  | _ => false

/-- No more `..` than names, wherever the path is broken off. -/
def Grounded (steps : List Component) : Prop :=
  ∀ front, front <+: steps → front.count .parent ≤ front.countP isName

instance : Decidable (Grounded steps) :=
  decidable_of_iff (∀ front ∈ steps.inits, front.count .parent ≤ front.countP isName)
    (by simp only [Grounded, List.mem_inits])

/-- Behind so many names, each `..` has one to cancel. -/
lemma exists_leaves_names (ground : List Component) (names : List String) (hroot : .root ∉ steps)
    (hdeep : ∀ front, front <+: steps →
      front.count .parent ≤ names.length + front.countP isName) :
    ∃ left : List String,
      Leaves (ground ++ names.map .name ++ steps) (ground ++ left.map .name) := by
  induction steps generalizing names with
  | nil => exact ⟨names, by rw [List.append_nil]⟩
  | cons c steps ih =>
      simp only [List.mem_cons, not_or] at hroot
      have hnext : ∀ front, front <+: steps →
          (c :: front).count .parent ≤ names.length + (c :: front).countP isName :=
        fun front hfront => hdeep _ (List.cons_prefix_cons.2 ⟨rfl, hfront⟩)
      cases c with
      | root => exact absurd rfl hroot.1
      | current =>
          obtain ⟨left, hleft⟩ := ih names hroot.2 fun front hfront => by
            simpa [isName] using hnext front hfront
          exact ⟨left, .head (.current _ steps) hleft⟩
      | name t =>
          obtain ⟨left, hleft⟩ := ih (names ++ [t]) hroot.2 fun front hfront => by
            have hle := hnext front hfront
            simp [List.countP_cons, isName] at hle ⊢
            omega
          exact ⟨left, by simpa using hleft⟩
      | parent =>
          rcases List.eq_nil_or_concat names with rfl | ⟨before, t, rfl⟩
          · -- the beginning that ends here has one `..` too many
            have hle := hnext [] List.nil_prefix
            simp [isName] at hle
          · obtain ⟨left, hleft⟩ := ih before hroot.2 fun front hfront => by
              have hle := hnext front hfront
              simp [isName] at hle ⊢
              omega
            refine ⟨left, .head ?_ hleft⟩
            have hdelete := Deletes.parent (ground ++ before.map .name) t steps
            simpa using hdelete

/-- All `..` of a path can be deleted with the names that they cancel, and the root stays. -/
lemma exists_leaves (h : Grounded p.components) :
    ∃ names : List String, Leaves p.components (p.anchor ++ names.map .name) := by
  obtain ⟨steps, hsteps, hroot⟩ := exists_components_anchor p
  rw [hsteps] at h ⊢
  have hground := exists_leaves_names p.anchor [] hroot fun front hfront => by
    have hle := h (p.anchor ++ front) ((List.prefix_append_right_inj _).2 hfront)
    rw [List.count_append, List.countP_append, anchor] at hle
    split_ifs at hle
    · simpa [isName] using hle
    · simpa using hle
  simpa using hground

/-- **Normal forms are stable.**  A normal form has no `.`, and at most one `..`, before which only the
root can stand; normalising it again changes not one character.  If no beginning of the path has more
`..` than names, the normal form is what deletions leave of the path: each `..` goes with the name that
it cancels, in whatever order, and the root stays.  Put together as a text, step by step, it is the
same. -/
theorem normalize_stable (p : Path) :
    .current ∉ p.normalize.components
    ∧ (∀ before after, p.normalize.components = before ++ .parent :: after →
      before = p.anchor ∧ .parent ∉ after)
    ∧ p.normalize.normalize = p.normalize
    ∧ (Grounded p.components → ∃ names : List String,
      p.normalize = ofComponents (p.anchor ++ names.map .name)
      ∧ ∀ left, (Leaves p.components left ∧ .current ∉ left ∧ .parent ∉ left)
        ↔ left = p.anchor ++ names.map .name)
    ∧ p.components.foldl pushText ⟨""⟩ = p.normalize := by
  refine ⟨current_notMem_components_normalize p, fun _ _ => eq_anchor_of_components_normalize,
    normalize_normalize p, ?_, foldl_pushText_components p⟩
  intro hgrounded
  obtain ⟨names, hleaves⟩ := exists_leaves hgrounded
  obtain ⟨hcurrent, hparent⟩ := plain_names p names
  have hnormal := normalSteps_of_leaves hleaves hcurrent hparent
  refine ⟨names, by rw [normalize, hnormal], fun left => ⟨?_, ?_⟩⟩
  · rintro ⟨hleft, hcurrent', hparent'⟩
    rw [← normalSteps_of_leaves hleft hcurrent' hparent', hnormal]
  · rintro rfl
    exact ⟨hleaves, hcurrent, hparent⟩

/-- The `..` after `c` cancels `b`. -/
theorem normalize_stable_grounded : Grounded (components ⟨"/a/./b/c/../..//d/"⟩)
    ∧ ∃ names : List String,
      normalize ⟨"/a/./b/c/../..//d/"⟩ = ofComponents (anchor ⟨"/a/./b/c/../..//d/"⟩ ++ names.map .name)
      ∧ ∀ left, (Leaves (components ⟨"/a/./b/c/../..//d/"⟩) left ∧ .current ∉ left ∧ .parent ∉ left)
        ↔ left = anchor ⟨"/a/./b/c/../..//d/"⟩ ++ names.map .name := by
  have hgrounded : Grounded (components ⟨"/a/./b/c/../..//d/"⟩) := by decide
  exact ⟨hgrounded, (normalize_stable _).2.2.2.1 hgrounded⟩

end Rebuild.Path
