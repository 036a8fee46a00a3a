import Mathlib.Data.Set.List
import Rebuild.Proofs.Path.Relative

/-!
# Where a relative path leads

Seen from a directory that is deep enough, a relative path leads some directories up and from there down
along names: its `Excursion`.  That is all there is to it (`normalSteps_join`).

The normal form of the path keeps the way down, but of the way up only whether it is odd, as a `..` takes
away the `..` before it (`excursion_normalize`).  So it leads to the same place exactly if the path climbs
no more than one directory: `normalize_join_normalize_iff`.
-/

namespace Rebuild.Path

/-! ## Excursions -/

/-- So many directories up, and from there down along these names, of which the last one comes first. -/
structure Excursion where
  up : Nat
  down : List String
  deriving DecidableEq, Repr

namespace Excursion

/-- The excursion with one more step. -/
def next (e : Excursion) : Component → Excursion
  | .name t => { e with down := t :: e.down }
  | .parent =>
    match e.down with
    | [] => ⟨e.up + 1, []⟩
    | _ :: down => { e with down }
  | _ => e

/-- The excursion along steps. -/
def along (e : Excursion) (steps : List Component) : Excursion := steps.foldl next e

variable {e : Excursion} {steps : List Component} {c : Component}

lemma along_cons : e.along (c :: steps) = (e.next c).along steps := rfl

lemma up_le_next (e : Excursion) (c : Component) : e.up ≤ (e.next c).up := by
  obtain ⟨up, down⟩ := e
  cases c <;> cases down <;> simp [next]

lemma up_le_along (e : Excursion) (steps : List Component) : e.up ≤ (e.along steps).up := by
  induction steps generalizing e with
  | nil => exact Nat.le_refl _
  | cons c steps ih => exact Nat.le_trans (up_le_next e c) (ih (e.next c))

/-- Only `..` leads up. -/
lemma up_along_le (e : Excursion) (steps : List Component) :
    (e.along steps).up ≤ e.up + steps.count .parent := by
  induction steps generalizing e with
  | nil => exact Nat.le_refl _
  | cons c steps ih =>
      refine Nat.le_trans (ih (e.next c)) ?_
      obtain ⟨up, down⟩ := e
      cases c <;> cases down <;> simp [next]
      omega

lemma along_names (e : Excursion) (names : List String) :
    e.along (names.map .name) = { e with down := names.reverse ++ e.down } := by
  induction names generalizing e with
  | nil => rfl
  | cons t names ih => simp [along_cons, ih, next]

/-- Steps of a path add up as the excursion does, over whatever the `..` beyond the names leave of the
ground: `ground n` is what `n` of them leave. -/
lemma foldl_pushNormal {ground : Nat → List Component} {n : Nat} (hsteps : .root ∉ steps)
    (hground : ∀ up < n, pushNormal (ground up) .parent = ground (up + 1))
    (hup : (e.along steps).up ≤ n) :
    steps.foldl pushNormal (e.down.map .name ++ ground e.up)
      = (e.along steps).down.map .name ++ ground (e.along steps).up := by
  induction steps generalizing e with
  | nil => rfl
  | cons c steps ih =>
      simp only [List.mem_cons, not_or] at hsteps
      have hpush : pushNormal (e.down.map .name ++ ground e.up) c
          = (e.next c).down.map .name ++ ground (e.next c).up := by
        have hlt := up_le_along (e.next c) steps
        rw [along_cons] at hup
        obtain ⟨up, down⟩ := e
        cases c with
        | root => exact absurd rfl hsteps.1
        | current => rfl
        | name t => rfl
        | parent =>
            cases down with
            | nil => exact hground up (Nat.lt_of_lt_of_le (Nat.lt_succ_self up) (Nat.le_trans hlt hup))
            | cons t down => rfl
      rw [List.foldl_cons, hpush]
      exact ih hsteps.2 hup

end Excursion

/-- Where a relative path leads. -/
def excursion (p : Path) : Excursion := Excursion.along ⟨0, []⟩ p.components

variable {p q base : Path}

/-! ## From a directory -/

lemma root_notMem_components (h : p.isAbsolute = false) : .root ∉ p.components := by
  intro hroot
  rw [isAbsolute_of_root_mem hroot] at h
  cases h

/-- A relative path makes its excursion from the directory. -/
lemma exists_components_join (hbase : base.isAbsolute = true) (hq : q.isAbsolute = false) :
    ∃ steps, (base.join q).components = base.components ++ steps ∧ .root ∉ steps
      ∧ Excursion.along ⟨0, []⟩ steps = q.excursion := by
  have hroot := root_notMem_components hq
  refine ⟨_, components_join_eq hbase hq, ?_, ?_⟩
  · rcases components_eq_or hq with heq | heq
    · rwa [← heq]
    · rw [heq] at hroot
      exact fun hmem => hroot (List.mem_cons_of_mem _ hmem)
  · rcases components_eq_or hq with heq | heq
    · rw [excursion, heq]
    · rw [excursion, heq]
      rfl

/-- A directory is names below the root. -/
lemma exists_names (hbase : base.isAbsolute = true) (hparent : .parent ∉ base.components) :
    ∃ names : List String, base.components = .root :: names.map .name := by
  rw [components_absolute hbase] at hparent ⊢
  have hall : ∀ c ∈ (Text.split '/' base.text.toList).filterMap Component.ofPiece?,
      c ∈ Set.range Component.name := by
    intro c hc
    obtain ⟨piece, hpiece, hread⟩ := List.mem_filterMap.1 hc
    cases follows_of_ofPiece? (Text.not_mem_of_mem_split hpiece) hread with
    | current =>
        rw [Component.ofPiece?] at hread
        split_ifs at hread with _ hdots
        · cases hread
        · cases hread
    | parent => exact absurd (List.mem_cons_of_mem _ hc) hparent
    | name ht => exact ⟨_, rfl⟩
  obtain ⟨names, hnames⟩ := (Set.ext_iff.1 (Set.range_list_map Component.name) _).2 hall
  exact ⟨names, congrArg _ hnames.symm⟩

/-- **From a directory that is deep enough, a path leads where its excursion goes.** -/
lemma normalSteps_join {names : List String} (hbase : base.isAbsolute = true)
    (hnames : base.components = .root :: names.map .name) (hq : q.isAbsolute = false)
    (hdeep : q.excursion.up ≤ names.length) :
    normalSteps (base.join q).components
      = .root :: (names.take (names.length - q.excursion.up) ++ q.excursion.down.reverse).map .name := by
  obtain ⟨steps, hjoin, hroot, halong⟩ := exists_components_join hbase hq
  let ground (up : Nat) : List Component := (names.reverse.drop up).map .name ++ [.root]
  have hground : ∀ up < names.length, pushNormal (ground up) .parent = ground (up + 1) := by
    intro up hup
    have hlt : up < names.reverse.length := by simpa using hup
    show pushNormal ((names.reverse.drop up).map .name ++ [.root]) .parent = _
    rw [List.drop_eq_getElem_cons hlt]
    rfl
  have hbefore : base.components.foldl pushNormal [] = ground 0 := by
    rw [hnames, List.foldl_cons, foldl_pushNormal_names, ← List.map_reverse]
    rfl
  have hafter := Excursion.foldl_pushNormal hroot hground (e := ⟨0, []⟩) (by rwa [halong])
  rw [halong] at hafter
  rw [normalSteps, hjoin, List.foldl_append, hbefore]
  refine (congrArg List.reverse hafter).trans ?_
  simp [ground, List.drop_reverse]

/-! ## The normal form -/

/-- The normal form of a relative path: of the `..` in front every second one takes away the one before
it. -/
lemma components_normalize (h : p.isAbsolute = false) :
    p.normalize.components
      = (if p.excursion.up % 2 = 1 then [.parent] else []) ++ p.excursion.down.reverse.map .name := by
  let ground (up : Nat) : List Component := if up % 2 = 1 then [.parent] else []
  have hground : ∀ up < p.excursion.up, pushNormal (ground up) .parent = ground (up + 1) := by
    intro up _
    rcases Nat.mod_two_eq_zero_or_one up with hup | hup
    · simp [ground, hup, Nat.add_mod, pushNormal]
    · simp [ground, hup, Nat.add_mod, pushNormal]
  have hsteps := Excursion.foldl_pushNormal (root_notMem_components h) hground (e := ⟨0, []⟩)
    (Nat.le_refl _)
  rw [normalize, components_ofComponents (normalSteps_normal p), normalSteps]
  refine (congrArg List.reverse hsteps).trans ?_
  show (p.excursion.down.map Component.name ++ ground p.excursion.up).reverse = _
  simp only [ground]
  split_ifs <;> simp

lemma isAbsolute_normalize (h : p.isAbsolute = false) : p.normalize.isAbsolute = false := by
  rw [Bool.eq_false_iff]
  intro habsolute
  rw [← root_mem_components_iff, components_normalize h] at habsolute
  split_ifs at habsolute <;> simp at habsolute

/-- **The normal form keeps the way down**, and of the way up whether it is odd. -/
lemma excursion_normalize (h : p.isAbsolute = false) :
    p.normalize.excursion = ⟨p.excursion.up % 2, p.excursion.down⟩ := by
  rw [excursion, components_normalize h]
  rcases Nat.mod_two_eq_zero_or_one p.excursion.up with hup | hup
  · simp [hup, -List.map_reverse, Excursion.along_names]
  · simp [hup, -List.map_reverse, Excursion.along_cons, Excursion.next, Excursion.along_names]

/-- Normal forms are the same if their steps are. -/
lemma normalize_eq_iff :
    p.normalize = q.normalize ↔ normalSteps p.components = normalSteps q.components := by
  constructor
  · intro h
    have hsteps : p.normalize.components = q.normalize.components := by rw [h]
    simp only [normalize] at hsteps
    rwa [components_ofComponents (normalSteps_normal p), components_ofComponents (normalSteps_normal q)]
      at hsteps
  · intro h
    rw [normalize, normalize, h]

/-- **Normalising keeps the file that a path names exactly if the path climbs no more than one
directory.**  The base has no `..`, and is at least as deep as the path has `..`. -/
theorem normalize_join_normalize_iff (hbase : base.isAbsolute = true)
    (hparent : .parent ∉ base.components) (hp : p.isAbsolute = false)
    (hdeep : p.components.count .parent < base.components.length) :
    (base.join p.normalize).normalize = (base.join p).normalize ↔ p.excursion.up ≤ 1 := by
  obtain ⟨names, hnames⟩ := exists_names hbase hparent
  have hup : p.excursion.up ≤ names.length := by
    have hcount : p.excursion.up ≤ 0 + p.components.count .parent :=
      Excursion.up_along_le ⟨0, []⟩ p.components
    have hlength : base.components.length = names.length + 1 := by simp [hnames]
    omega
  have hnormal := excursion_normalize hp
  have hmod : p.normalize.excursion.up ≤ names.length := by
    rw [hnormal]
    exact Nat.le_trans (Nat.mod_le _ _) hup
  rw [normalize_eq_iff, normalSteps_join hbase hnames (isAbsolute_normalize hp) hmod,
    normalSteps_join hbase hnames hp hup, hnormal]
  constructor
  · intro h
    have hlength := congrArg List.length h
    simp at hlength
    omega
  · intro h
    rw [Nat.mod_eq_of_lt (Nat.lt_succ_of_le h)]

/-- One directory up is kept, whatever it is hidden behind. -/
theorem normalize_join_normalize_once : isAbsolute ⟨"/a/b"⟩ = true
    ∧ .parent ∉ components ⟨"/a/b"⟩ ∧ isAbsolute ⟨"./x/../../y//z"⟩ = false
    ∧ (components ⟨"./x/../../y//z"⟩).count .parent < (components ⟨"/a/b"⟩).length
    ∧ (join ⟨"/a/b"⟩ (normalize ⟨"./x/../../y//z"⟩)).normalize
      = (join ⟨"/a/b"⟩ ⟨"./x/../../y//z"⟩).normalize := by
  have hparent : .parent ∉ components ⟨"/a/b"⟩ := by decide
  have hdeep : (components ⟨"./x/../../y//z"⟩).count .parent < (components ⟨"/a/b"⟩).length := by decide
  exact ⟨by decide, hparent, by decide, hdeep,
    (normalize_join_normalize_iff (by decide) hparent (by decide) hdeep).2 (by decide)⟩

/-- Two directories up are lost: `x` is taken for a file of the directory itself. -/
theorem not_normalize_keeps_place : ¬∀ base p : Path, base.isAbsolute = true →
    .parent ∉ base.components → p.isAbsolute = false →
    p.components.count .parent < base.components.length →
    (base.join p.normalize).normalize = (base.join p).normalize := by
  intro h
  have hsame := h ⟨"/a/b"⟩ ⟨"../../x"⟩ (by decide) (by decide) (by decide) (by decide)
  exact absurd hsame (by decide +kernel)

end Rebuild.Path
