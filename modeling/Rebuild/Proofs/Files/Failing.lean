import Rebuild.Proofs.Files.Lineage

/-!
# When a write fails

`FileTree.writeAtomic` first makes the directories that its goal needs, and then only ever touches its
temporary name, until the rename.  So a write that fails leaves all files as they were, whichever
operation it fails at (`writeAtomic_error`).

* **Directories.**  `Furnished`: there may be new directories where nothing was.
* **Files.**  `Beside P`: under these names there may be other files or none; every path leads where
  it led.
-/

namespace Rebuild.FileTree

variable {tree tree₁ tree₂ tree' : FileTree} {p q goal : Path} {t g : Target}
  {P Q : List String → Prop} {faults : Faults} {fresh : String} {file : File}

/-! ## New directories -/

/-- From one tree to another one: directories were added where nothing was. -/
structure Furnished (tree tree' : FileTree) : Prop where
  here : tree'.here = tree.here
  kept : ∀ names e, tree.entry? names = some e → tree'.entry? names = some e
  files : ∀ names f, tree'.entry? names = some (.file f) → tree.entry? names = some (.file f)

namespace Furnished

lemma refl (tree : FileTree) : Furnished tree tree := ⟨rfl, fun _ _ h => h, fun _ _ h => h⟩

lemma trans (h₁ : Furnished tree tree₁) (h₂ : Furnished tree₁ tree₂) : Furnished tree tree₂ where
  here := h₂.here.trans h₁.here
  kept names e h := h₂.kept names e (h₁.kept names e h)
  files names f h := h₁.files names f (h₂.files names f h)

/-- What is found stays. -/
lemma find? (h : Furnished tree tree') {e : FileEntry} (hfind : tree.find? p = .ok e) :
    tree'.find? p = .ok e := by
  obtain ⟨t, hlocate, hlook⟩ := find?_eq_ok_iff.1 hfind
  refine find?_eq_ok_iff.2
    ⟨t, locate_of_keeps (fun names => h.kept names _) h.here hlocate, ?_⟩
  cases e with
  | directory => exact look_eq_ok_directory_iff.2 (h.kept _ _ (look_eq_ok_directory_iff.1 hlook))
  | file f =>
      obtain ⟨hentry, hslash⟩ := look_eq_ok_file_iff.1 hlook
      exact look_eq_ok_file_iff.2 ⟨h.kept _ _ hentry, hslash⟩

/-- Without `..`, no file is found that was not there. -/
lemma find?_file_iff (h : Furnished tree tree') (hrooted : tree.Rooted) (hrooted' : tree'.Rooted)
    (hsteps : ".." ∉ steps p) (f : File) :
    tree'.find? p = .ok (.file f) ↔ tree.find? p = .ok (.file f) := by
  refine ⟨fun hfind => ?_, h.find?⟩
  obtain ⟨t, hlocate, hlook⟩ := find?_eq_ok_iff.1 hfind
  obtain ⟨hentry, hslash⟩ := look_eq_ok_file_iff.1 hlook
  have hfile := h.files _ f hentry
  refine find?_eq_ok_iff.2 ⟨t, ?_, look_eq_ok_file_iff.2 ⟨hfile, hslash⟩⟩
  have hparent : tree.entry? t.parent = some .directory := by
    cases hname : t.name with
    | none =>
        rw [Target.names, hname] at hentry
        cases hentry.symm.trans (hrooted'.locate hlocate)
    | some name => exact hrooted.parent hname hfile
  simp only [locate, h.here] at hlocate ⊢
  split_ifs at hlocate ⊢
  all_goals exact hrooted.walk_of_walk hsteps hparent hlocate

end Furnished

lemma furnished_createDirectory (hcreate : tree.createDirectory p = .ok tree') :
    Furnished tree tree' := by
  obtain ⟨t, -, hfree, rfl⟩ := exists_of_createDirectory hcreate
  have hne : t.names ≠ [] := ne_nil_of_entryAt hfree (by simp)
  refine ⟨rfl, fun names e hentry => ?_, fun names f hentry => ?_⟩
  · rw [entryAt_set hne, if_neg]
    · exact hentry
    · rintro rfl
      cases hfree.symm.trans hentry
  · rw [entryAt_set hne] at hentry
    split_ifs at hentry
    · cases hentry
    · exact hentry

lemma furnished_createDirectories (faults : Faults) (tree : FileTree) (ps : List Path) :
    Furnished tree (createDirectories faults tree ps).1 := by
  have hsteps := creates_createDirectories faults tree ps
  generalize (createDirectories faults tree ps).1 = made at hsteps ⊢
  induction hsteps with
  | refl => exact .refl tree
  | tail _ hstep ih =>
      obtain ⟨p, -, hcreate⟩ := hstep
      exact ih.trans (furnished_createDirectory hcreate)

lemma furnished_furnish (faults : Faults) (tree : FileTree) (goal : Path) :
    Furnished tree (furnish faults tree goal) := by
  rw [furnish]
  split
  · exact .refl tree
  · exact furnished_createDirectories faults tree _

lemma Rooted.furnish (h : tree.Rooted) (faults : Faults) (goal : Path) :
    (furnish faults tree goal).Rooted := by
  rw [FileTree.furnish]
  split
  · exact h
  · exact (createDirectories_changes faults _ h).rooted

/-! ## Other files -/

/-- From one tree to another one: there are other files under these names only, and the same
directories. -/
structure Beside (P : List String → Prop) (tree tree' : FileTree) : Prop where
  here : tree'.here = tree.here
  directories : ∀ names,
    tree'.entry? names = some .directory ↔ tree.entry? names = some .directory
  same : ∀ names, ¬P names → tree'.entry? names = tree.entry? names

namespace Beside

lemma refl (tree : FileTree) : Beside P tree tree := ⟨rfl, fun _ => Iff.rfl, fun _ _ => rfl⟩

lemma trans (h₁ : Beside P tree tree₁) (h₂ : Beside P tree₁ tree₂) : Beside P tree tree₂ where
  here := h₂.here.trans h₁.here
  directories names := (h₂.directories names).trans (h₁.directories names)
  same names hP := (h₂.same names hP).trans (h₁.same names hP)

lemma mono (h : Beside P tree tree') (hPQ : ∀ names, P names → Q names) : Beside Q tree tree' where
  here := h.here
  directories := h.directories
  same names hQ := h.same names fun hP => hQ (hPQ names hP)

/-- A path leads where it led. -/
lemma locate (h : Beside P tree tree') : tree'.locate p = .ok t ↔ tree.locate p = .ok t :=
  ⟨locate_of_keeps (fun names => (h.directories names).1) h.here.symm,
    locate_of_keeps (fun names => (h.directories names).2) h.here⟩

/-- What is at a path is the same, unless the path leads to one of the names. -/
lemma find? (h : Beside P tree tree') (hP : ∀ t, tree.locate p = .ok t → ¬P t.names)
    (e : FileEntry) : tree'.find? p = .ok e ↔ tree.find? p = .ok e := by
  rw [find?_eq_ok_iff, find?_eq_ok_iff]
  refine exists_congr fun t => ?_
  rw [h.locate]
  refine and_congr_right fun hlocate => ?_
  rw [look, look, h.same _ (hP t hlocate)]

end Beside

/-- Texts are the same where the files are. -/
lemma readText_congr (h : ∀ f, tree'.find? p = .ok (.file f) ↔ tree.find? p = .ok (.file f))
    (text : String) :
    tree'.readText p = .ok text ↔ tree.readText p = .ok text := by
  simp only [readText_eq_ok_iff, readBytes_eq_ok_iff, h]

lemma beside_set {names : List String} {f : File} (hplace : tree.entry? names ≠ some .directory) :
    Beside (· = names) tree (tree.set names (.file f)) := by
  have hne := ne_nil_of_entryAt rfl hplace
  refine ⟨rfl, fun other => ?_, fun other hother => ?_⟩
  · rw [entryAt_set hne]
    split_ifs with heq
    · subst heq
      simp [hplace]
    · rfl
  · rw [entryAt_set hne, if_neg (Ne.symm hother)]

lemma beside_erase {names : List String} {f : File} (hfile : tree.entry? names = some (.file f)) :
    Beside (· = names) tree (tree.erase names) := by
  have hne : names ≠ [] := ne_nil_of_entryAt hfile (by simp)
  refine ⟨rfl, fun other => ?_, fun other hother => ?_⟩
  · rw [entryAt_erase hne]
    split_ifs with heq
    · subst heq
      simp [hfile]
    · rfl
  · rw [entryAt_erase hne, if_neg (Ne.symm hother)]

lemma beside_removeAll (h : tree.Rooted) {names : List String} {f : File}
    (hfile : tree.entry? names = some (.file f)) :
    Beside (· = names) tree (tree.removeAll names) := by
  have hchanges := h.changes_removeAll hfile
  refine ⟨rfl, fun other => ⟨entryAt_of_removeAll, hchanges.keeps other⟩, fun other hother => ?_⟩
  cases hentry : tree.entry? other with
  | some e => exact hchanges.kept other e hentry hother
  | none =>
      cases hleft : entry? (tree.removeAll names) other with
      | none => rfl
      | some e => cases hentry.symm.trans (entryAt_of_removeAll hleft)

/-! ## The temporary file -/

/-- These are names of the temporary file. -/
def IsTemporary (fresh : String) (names : List String) : Prop :=
  names.getLast? = some (temporaryName fresh).text

lemma isTemporary_of_locate (hfresh : '/' ∉ fresh.toList) {parent : Path}
    (hlocate : tree.locate (parent.join (temporaryName fresh)) = .ok t) :
    IsTemporary fresh t.names := by
  have hname := (locate_join (plainName_temporary hfresh) hlocate).1
  rw [IsTemporary, names_eq_append hname, List.getLast?_concat]

/-- Writing a file touches nothing else. -/
lemma exists_beside_of_write (hwrite : tree.write p file = .ok tree') :
    ∃ t, tree.locate p = .ok t ∧ Beside (· = t.names) tree tree'
      ∧ tree'.look t = .ok (.file file) := by
  obtain ⟨t, hlocate, hslash, hplace, rfl⟩ := exists_of_write hwrite
  refine ⟨t, hlocate, beside_set hplace, look_eq_ok_file_iff.2 ⟨?_, hslash⟩⟩
  rw [entryAt_set (ne_nil_of_entryAt rfl hplace), if_pos rfl]

lemma beside_write (hfresh : '/' ∉ fresh.toList) {parent : Path}
    (hwrite : tree.write (parent.join (temporaryName fresh)) file = .ok tree') :
    Beside (IsTemporary fresh) tree tree' := by
  obtain ⟨t, hlocate, hbeside, -⟩ := exists_beside_of_write hwrite
  refine hbeside.mono ?_
  rintro names rfl
  exact isTemporary_of_locate hfresh hlocate

/-- Filling the temporary file touches nothing else, whether it succeeds or not. -/
lemma beside_fillTemporary (faults : Faults) (hfresh : '/' ∉ fresh.toList) (tree : FileTree)
    (parent : Path) (file : File) :
    Beside (IsTemporary fresh) tree
      (fillTemporary faults tree (parent.join (temporaryName fresh)) file).1 := by
  rw [fillTemporary]
  split
  · exact .refl tree
  · rename_i opened hopened
    have hopen := beside_write hfresh (attempt_eq_ok hopened)
    split
    · exact hopen
    · rename_i written hwritten
      have hwrite := hopen.trans (beside_write hfresh (attempt_eq_ok hwritten))
      split <;> exact hwrite

lemma beside_discard (faults : Faults) (hfresh : '/' ∉ fresh.toList) (tree : FileTree)
    (parent : Path) :
    Beside (IsTemporary fresh) tree
      (tree.discard faults (parent.join (temporaryName fresh))) := by
  rw [discard]
  split
  · rename_i cleaned hcleaned
    obtain ⟨t, f, hlocate, hfile, rfl⟩ := exists_of_removeFile (attempt_eq_ok hcleaned)
    refine (beside_erase hfile).mono ?_
    rintro names rfl
    exact isTemporary_of_locate hfresh hlocate
  · exact .refl tree

/-- The temporary file cannot be filled because a file operation failed. -/
lemma fillTemporary_eq_error {temporary : Path} {e : BuildError}
    (hfill : fillTemporary faults tree temporary file = (tree', .error e)) :
    ∃ p operation cause, e = .fileSystem p operation cause := by
  rw [fillTemporary] at hfill
  split at hfill
  · cases hfill
    exact ⟨_, _, _, rfl⟩
  · split at hfill
    · cases hfill
      exact ⟨_, _, _, rfl⟩
    · split at hfill
      · cases hfill
        exact ⟨_, _, _, rfl⟩
      · cases hfill

/-! ## The whole write -/

/-- A write fails with an error of the file system or about its goal. -/
def IsWriteFault (e : BuildError) : Prop :=
  (∃ p operation cause, e = .fileSystem p operation cause) ∨ ∃ problem, e = .configuration problem

/-- Where a write can end. -/
inductive WriteEnds (faults : Faults) (fresh : String) (tree : FileTree) (goal : Path) (file : File) :
    FileTree → Except BuildError Unit → Prop where
  /-- Before anything is written. -/
  | unwritten {e : BuildError} (he : IsWriteFault e) :
      WriteEnds faults fresh tree goal file (furnish faults tree goal) (.error e)
  /-- With the temporary file, filled or not, discarded. -/
  | discarded {e : BuildError} (he : IsWriteFault e) {parent : Path} {filled : FileTree}
      {result : Except BuildError Unit}
      (hfill : fillTemporary faults (furnish faults tree goal)
        (parent.join (temporaryName fresh)) file = (filled, result)) :
      WriteEnds faults fresh tree goal file
        (filled.discard faults (parent.join (temporaryName fresh))) (.error e)
  /-- With the temporary file renamed. -/
  | renamed {parent : Path} {filled done : FileTree}
      (hfill : fillTemporary faults (furnish faults tree goal)
        (parent.join (temporaryName fresh)) file = (filled, .ok ()))
      (hrename : filled.rename (parent.join (temporaryName fresh)) goal = .ok done) :
      WriteEnds faults fresh tree goal file done (.ok ())

lemma writeEnds_writeAtomic {result : Except BuildError Unit}
    (hwrite : tree.writeAtomic faults fresh goal file = (tree', result)) :
    WriteEnds faults fresh tree goal file tree' result := by
  rw [writeAtomic] at hwrite
  cases hparent : goal.parent? with
  | none =>
      simp only [hparent] at hwrite
      cases hwrite
      have hend : WriteEnds faults fresh tree goal file (furnish faults tree goal)
          (.error (.configuration (.noParent goal))) := .unwritten (.inr ⟨_, rfl⟩)
      rwa [furnish, hparent] at hend
  | some parent =>
      simp only [hparent] at hwrite
      have hfurnish : furnish faults tree goal = (createDirectories faults tree (lineage parent)).1 := by
        rw [furnish, hparent]
      rcases hmade : createDirectories faults tree (lineage parent) with ⟨made, cause | _⟩
      · simp only [hmade] at hwrite hfurnish
        cases hwrite
        exact hfurnish ▸ .unwritten (.inl ⟨_, _, _, rfl⟩)
      · simp only [hmade] at hwrite hfurnish
        rcases hfill : fillTemporary faults made (parent.join (temporaryName fresh)) file with
          ⟨filled, error | _⟩
        · simp only [hfill] at hwrite
          cases hwrite
          exact .discarded (.inl (fillTemporary_eq_error hfill)) (hfurnish ▸ hfill)
        · simp only [hfill] at hwrite
          cases hrename : attempt faults .rename
              (filled.rename (parent.join (temporaryName fresh)) goal) with
          | error cause =>
              simp only [hrename] at hwrite
              cases hwrite
              exact .discarded (.inl ⟨_, _, _, rfl⟩) (hfurnish ▸ hfill)
          | ok done =>
              simp only [hrename] at hwrite
              cases hwrite
              exact .renamed (hfurnish ▸ hfill) (attempt_eq_ok hrename)

lemma isWriteFault_of_writeAtomic {e : BuildError}
    (hwrite : tree.writeAtomic faults fresh goal file = (tree', .error e)) : IsWriteFault e := by
  cases writeEnds_writeAtomic hwrite with
  | unwritten he => exact he
  | discarded he _ => exact he

/-- **A write that fails leaves every file as it was**, but for its temporary file; directories may
have been made. -/
theorem writeAtomic_error (hfresh : '/' ∉ fresh.toList) {e : BuildError}
    (hwrite : tree.writeAtomic faults fresh goal file = (tree', .error e)) :
    Beside (IsTemporary fresh) (furnish faults tree goal) tree' := by
  cases writeEnds_writeAtomic hwrite with
  | unwritten _ => exact .refl _
  | @discarded _ _ parent filled result hfill =>
      have hfilled := beside_fillTemporary faults hfresh (furnish faults tree goal) parent file
      rw [hfill] at hfilled
      exact hfilled.trans (beside_discard faults hfresh filled parent)

/-- **A write that succeeds** replaces the file at its goal and touches nothing else but its temporary
file. -/
theorem beside_writeAtomic (h : tree.Rooted) (hfresh : '/' ∉ fresh.toList)
    (hwrite : tree.writeAtomic faults fresh goal file = (tree', .ok ())) :
    ∃ g, tree'.locate goal = .ok g ∧ Beside (fun names => IsTemporary fresh names ∨ names = g.names)
      (furnish faults tree goal) tree' := by
  cases writeEnds_writeAtomic hwrite with
  | @renamed parent filled _ hfill hrename =>
      obtain ⟨t, hlocate, hlook, hchanges⟩ := fillTemporary_ok (h.furnish faults goal) hfill
      have hfilled := beside_fillTemporary faults hfresh (furnish faults tree goal) parent file
      rw [hfill] at hfilled
      cases hgoal : filled.locate goal with
      | error cause =>
          simp only [rename, hlocate, hgoal, bind, Except.bind] at hrename
          cases hrename
      | ok g =>
          have htemporary := isTemporary_of_locate hfresh hlocate
          have hentry := (look_eq_ok_file_iff.1 hlook).1
          obtain ⟨-, ⟨-, rfl⟩ | ⟨hplace, rfl⟩⟩ :=
            eq_of_rename hchanges.rooted hrename hlocate hgoal hlook
          · exact ⟨g, hgoal, hfilled.mono fun _ => .inl⟩
          · have hremoved := beside_removeAll hchanges.rooted hentry
            have hset : Beside (· = g.names) (filled.removeAll t.names)
                ((filled.removeAll t.names).set g.names (.file file)) :=
              beside_set (mt entryAt_of_removeAll hplace)
            have hmoved := (hremoved.mono fun names (hnames : names = t.names) =>
              Or.inl (b := names = g.names) (hnames ▸ htemporary)).trans (hset.mono fun _ => .inr)
            exact ⟨g, hmoved.locate.2 hgoal, (hfilled.mono fun _ => .inl).trans hmoved⟩

end Rebuild.FileTree
