import Mathlib.Logic.Relation
import Rebuild.Files.AtomicWrite
import Rebuild.Proofs.Files.Places

/-!
# Replacing a file

`FileTree.writeAtomic` goes through a temporary file beside its goal.  When it succeeds, the goal is
the new file, and nothing else has changed but the temporary name and missing directories
(`writeAtomic_ok`).

* **Frames.**  `Changes P tree tree'`: what is there stays, but for names with `P`, and directories
  stay.
* **Operations.**  One lemma for each: `createDirectory_ok`, `write_ok`, `rename_ok`.
-/

namespace Rebuild.FileTree

variable {tree tree₁ tree₂ tree' : FileTree} {p q : Path} {t : Target} {P Q : List String → Prop}

/-! ## Frames -/

/-- From a rooted tree to another one: what is there stays, but for these names, and so does every
directory. -/
structure Changes (P : List String → Prop) (tree tree' : FileTree) : Prop where
  rooted : tree'.Rooted
  here : tree'.here = tree.here
  keeps : tree.Keeps tree'
  kept : ∀ names e, tree.entry? names = some e → ¬P names → tree'.entry? names = some e

lemma Changes.refl (h : tree.Rooted) : Changes P tree tree :=
  ⟨h, rfl, fun _ h => h, fun _ _ h _ => h⟩

lemma Changes.trans (h₁ : Changes P tree tree₁) (h₂ : Changes P tree₁ tree₂) :
    Changes P tree tree₂ where
  rooted := h₂.rooted
  here := h₂.here.trans h₁.here
  keeps names h := h₂.keeps names (h₁.keeps names h)
  kept names e h hP := h₂.kept names e (h₁.kept names e h hP) hP

lemma Changes.mono (h : Changes P tree tree') (hPQ : ∀ names, P names → Q names) :
    Changes Q tree tree' where
  rooted := h.rooted
  here := h.here
  keeps := h.keeps
  kept names e hentry hQ := h.kept names e hentry fun hP => hQ (hPQ names hP)

/-- A path leads where it led. -/
lemma Changes.locate (h : Changes P tree tree') (hlocate : tree.locate p = .ok t) :
    tree'.locate p = .ok t :=
  locate_of_keeps h.keeps h.here hlocate

/-- A file that is not among the changed names stays. -/
lemma Changes.find? (h : Changes P tree tree') {f : File} (hlocate : tree.locate p = .ok t)
    (hlook : tree.look t = .ok (.file f)) (hP : ¬P t.names) : tree'.find? p = .ok (.file f) := by
  obtain ⟨hentry, hslash⟩ := look_eq_ok_file_iff.1 hlook
  exact find?_eq_ok_iff.2
    ⟨t, h.locate hlocate, look_eq_ok_file_iff.2 ⟨h.kept _ _ hentry hP, hslash⟩⟩

lemma entryAt_set {names other : List String} {e : FileEntry} (h : names ≠ []) :
    entry? (tree.set names e) other = if names = other then some e else tree.entry? other := by
  by_cases hnil : other = []
  · rw [hnil, entryAt_nil, entryAt_nil, if_neg h]
  · rw [entryAt_of_ne_nil hnil, entryAt_of_ne_nil hnil, FileTree.set, Std.TreeMap.getElem?_insert]
    simp

/-- Putting something where there is no directory. -/
lemma Rooted.changes_set (h : tree.Rooted) {e : FileEntry}
    (hparent : tree.entry? t.parent = some .directory)
    (hplace : tree.entry? t.names ≠ some .directory) :
    Changes (· = t.names) tree (tree.set t.names e)
      ∧ entry? (tree.set t.names e) t.names = some e := by
  have hname : ∃ name, t.name = some name := by
    refine Option.ne_none_iff_exists'.1 fun hnone => hplace ?_
    simp only [Target.names, hnone]
    exact hparent
  obtain ⟨name, hname⟩ := hname
  have hnames := names_eq_append hname
  have hne : t.names ≠ [] := by simp [hnames]
  rw [hnames] at hplace
  obtain ⟨hrooted, hkeeps⟩ := h.set (e := e) hparent hplace
  rw [← hnames] at hrooted hkeeps
  refine ⟨⟨hrooted, rfl, hkeeps, fun names found hentry hnot => ?_⟩, ?_⟩
  · rw [entryAt_set hne, if_neg (Ne.symm hnot)]
    exact hentry
  · rw [entryAt_set hne, if_pos rfl]

/-! ## Operations -/

/-- A new directory comes where nothing was. -/
lemma exists_of_createDirectory (hcreate : tree.createDirectory p = .ok tree') :
    ∃ t, tree.locate p = .ok t ∧ tree.entry? t.names = none
      ∧ tree' = tree.set t.names .directory := by
  simp only [createDirectory] at hcreate
  cases hlocate : tree.locate p with
  | error cause =>
      rw [hlocate] at hcreate
      cases hcreate
  | ok t =>
      rw [hlocate] at hcreate
      cases hentry : tree.entry? t.names with
      | some e =>
          simp only [hentry, bind, Except.bind] at hcreate
          cases hcreate
      | none =>
          simp only [hentry, bind, Except.bind] at hcreate
          cases hcreate
          exact ⟨t, rfl, hentry, rfl⟩

lemma createDirectory_ok (h : tree.Rooted) (hcreate : tree.createDirectory p = .ok tree') :
    Changes (fun _ => False) tree tree' := by
  obtain ⟨t, hlocate, hentry, rfl⟩ := exists_of_createDirectory hcreate
  obtain ⟨hchanges, -⟩ := h.changes_set (e := .directory) (h.locate hlocate) (by simp [hentry])
  refine ⟨hchanges.rooted, rfl, hchanges.keeps, fun names e hnames _ => ?_⟩
  refine hchanges.kept names e hnames ?_
  rintro rfl
  cases hentry.symm.trans hnames

/-- Writing a file puts it where no directory is. -/
lemma exists_of_write {file : File} (hwrite : tree.write p file = .ok tree') :
    ∃ t, tree.locate p = .ok t ∧ t.slash = false ∧ tree.entry? t.names ≠ some .directory
      ∧ tree' = tree.set t.names (.file file) := by
  simp only [write] at hwrite
  cases hlocate : tree.locate p with
  | error cause =>
      rw [hlocate] at hwrite
      cases hwrite
  | ok t =>
      rw [hlocate] at hwrite
      simp only [bind, Except.bind] at hwrite
      split_ifs at hwrite with hslash
      have hplace : tree.entry? t.names ≠ some .directory := by
        intro hentry
        rw [hentry] at hwrite
        cases hwrite
      refine ⟨t, rfl, by simpa using hslash, hplace, ?_⟩
      cases hentry : tree.entry? t.names with
      | none =>
          rw [hentry] at hwrite
          cases hwrite
          rfl
      | some e =>
          cases e with
          | directory => exact absurd hentry hplace
          | file f =>
              rw [hentry] at hwrite
              cases hwrite
              rfl

/-- A file that is written is there. -/
lemma write_ok {file : File} (h : tree.Rooted) (hwrite : tree.write p file = .ok tree') :
    ∃ t, tree.locate p = .ok t ∧ t.slash = false ∧ Changes (· = t.names) tree tree'
      ∧ tree'.entry? t.names = some (.file file) := by
  obtain ⟨t, hlocate, hslash, hplace, rfl⟩ := exists_of_write hwrite
  obtain ⟨hchanges, hfound⟩ := h.changes_set (e := .file file) (h.locate hlocate) hplace
  exact ⟨t, hlocate, hslash, hchanges, hfound⟩

/-- Nothing is below a file. -/
lemma Rooted.below_eq_nil (h : tree.Rooted) {names : List String} {f : File}
    (hfile : tree.entry? names = some (.file f)) : tree.below names = [] := by
  rw [FileTree.below, List.filterMap_eq_nil_iff]
  rintro ⟨found, e⟩ hmem
  refine if_neg ?_
  rintro ⟨hbegins, hne⟩
  obtain ⟨rest, rfl⟩ := List.isPrefixOf_iff_prefix.1 hbegins
  have hrest : rest ≠ [] := by
    rintro rfl
    exact hne (List.append_nil names).symm
  have hplace : tree.entry? names ≠ some .directory := by simp [hfile]
  have hnone := h.below hplace rest hrest
  rw [Std.TreeMap.mem_toList_iff_getElem?_eq_some] at hmem
  cases hnone.symm.trans hmem

lemma entryAt_of_removeAll {names other : List String} {e : FileEntry}
    (h : entry? (tree.removeAll names) other = some e) : tree.entry? other = some e := by
  by_cases hnil : other = []
  · rwa [hnil, entryAt_nil] at h ⊢
  · rw [entryAt_of_ne_nil hnil] at h ⊢
    rw [removeAll, Std.TreeMap.getElem?_filter'] at h
    exact (Option.filter_eq_some_iff.1 h).1

/-- A rooted tree without one of its files. -/
lemma Rooted.changes_removeAll (h : tree.Rooted) {names : List String} {f : File}
    (hfile : tree.entry? names = some (.file f)) :
    Changes (· = names) tree (tree.removeAll names) := by
  have hkept : ∀ other e, tree.entry? other = some e → other ≠ names →
      entry? (tree.removeAll names) other = some e := by
    intro other e hentry hne
    by_cases hnil : other = []
    · rwa [hnil, entryAt_nil] at hentry ⊢
    · rw [entryAt_of_ne_nil hnil] at hentry ⊢
      have hnot : names.isPrefixOf other = false := by
        rw [Bool.eq_false_iff]
        intro hbegins
        obtain ⟨rest, rfl⟩ := List.isPrefixOf_iff_prefix.1 hbegins
        have hrest : rest ≠ [] := by
          rintro rfl
          exact hne (List.append_nil names)
        cases (h.below (by simp [hfile]) rest hrest).symm.trans hentry
      rw [removeAll, Std.TreeMap.getElem?_filter', hentry]
      simp [hnot]
  have hkeeps : tree.Keeps (tree.removeAll names) := by
    intro other hother
    refine hkept other _ hother ?_
    rintro rfl
    cases hother.symm.trans hfile
  refine ⟨⟨hkeeps _ h.here, fun other name hfound => ?_⟩, rfl, hkeeps, hkept⟩
  obtain ⟨e, he⟩ := Option.ne_none_iff_exists'.1 hfound
  have hne : other ++ [name] ≠ [] := by simp
  rw [← entryAt_of_ne_nil hne] at he
  refine hkeeps _ (h.around other name ?_)
  rw [← entryAt_of_ne_nil hne, entryAt_of_removeAll he]
  exact Option.some_ne_none e

/-- Renaming a file onto another name takes it away and puts it where no directory is. -/
lemma eq_of_rename {source goal : Path} {s g : Target} {f : File} (h : tree.Rooted)
    (hrename : tree.rename source goal = .ok tree') (hsource : tree.locate source = .ok s)
    (hgoal : tree.locate goal = .ok g) (hfile : tree.look s = .ok (.file f)) :
    g.slash = false ∧ ((s.names = g.names ∧ tree' = tree)
      ∨ (tree.entry? g.names ≠ some .directory
        ∧ tree' = (tree.removeAll s.names).set g.names (.file f))) := by
  obtain ⟨hentry, -⟩ := look_eq_ok_file_iff.1 hfile
  simp only [rename, hsource, hgoal, hfile, bind, Except.bind] at hrename
  split_ifs at hrename with hname hslash hsame
  all_goals
    have hnot : g.slash = false := by simpa using hslash
  · cases hrename
    exact ⟨hnot, .inl ⟨hsame, rfl⟩⟩
  · have hplace : tree.entry? g.names ≠ some .directory := by
      intro hdirectory
      simp only [checkReplace, hdirectory] at hrename
      cases hrename
    refine ⟨hnot, .inr ⟨hplace, ?_⟩⟩
    cases hcheck : tree.checkReplace (.file f) g with
    | error cause =>
        rw [hcheck] at hrename
        cases hrename
    | ok u =>
        rw [hcheck] at hrename
        simp only [h.below_eq_nil hentry, List.foldl_nil] at hrename
        cases hrename
        rfl

/-- A file that is renamed is at the goal. -/
lemma rename_ok {source goal : Path} {s g : Target} {f : File} (h : tree.Rooted)
    (hrename : tree.rename source goal = .ok tree') (hsource : tree.locate source = .ok s)
    (hgoal : tree.locate goal = .ok g) (hfile : tree.look s = .ok (.file f)) :
    Changes (fun names => names = s.names ∨ names = g.names) tree tree'
      ∧ tree'.find? goal = .ok (.file f) := by
  obtain ⟨hentry, -⟩ := look_eq_ok_file_iff.1 hfile
  obtain ⟨hnot, ⟨hsame, rfl⟩ | ⟨hplace, rfl⟩⟩ := eq_of_rename h hrename hsource hgoal hfile
  · refine ⟨.refl h, find?_eq_ok_iff.2 ⟨g, hgoal, look_eq_ok_file_iff.2 ⟨?_, hnot⟩⟩⟩
    rw [← hsame]
    exact hentry
  · have hcleared := h.changes_removeAll hentry
    have hfree : entry? (tree.removeAll s.names) g.names ≠ some .directory :=
      fun hdirectory => hplace (entryAt_of_removeAll hdirectory)
    obtain ⟨hset, hfound⟩ := hcleared.rooted.changes_set (e := .file f)
      (hcleared.keeps _ (h.locate hgoal)) hfree
    have hchanges := (hcleared.mono fun _ => Or.inl).trans (hset.mono fun _ => Or.inr)
    exact ⟨hchanges, find?_eq_ok_iff.2
      ⟨g, hchanges.locate hgoal, look_eq_ok_file_iff.2 ⟨hfound, hnot⟩⟩⟩

/-! ## Removing a file -/

/-- Whatever is found in the one tree is found in the other. -/
lemma find?_of_subset {e : FileEntry} (hhere : tree'.here = tree.here)
    (hsubset : ∀ names e, tree'.entry? names = some e → tree.entry? names = some e)
    (hfind : tree'.find? p = .ok e) : tree.find? p = .ok e := by
  obtain ⟨t, hlocate, hlook⟩ := find?_eq_ok_iff.1 hfind
  refine find?_eq_ok_iff.2 ⟨t, locate_of_keeps (fun _ h => hsubset _ _ h) hhere.symm hlocate, ?_⟩
  simp only [look] at hlook ⊢
  cases hentry : tree'.entry? t.names with
  | none =>
      rw [hentry] at hlook
      cases hlook
  | some found =>
      rw [hentry] at hlook
      rw [hsubset _ _ hentry]
      exact hlook

/-- Removing a file takes its name away. -/
lemma exists_of_removeFile (hremove : tree.removeFile p = .ok tree') :
    ∃ t f, tree.locate p = .ok t ∧ tree.entry? t.names = some (.file f)
      ∧ tree' = tree.erase t.names := by
  simp only [removeFile] at hremove
  cases hlocate : tree.locate p with
  | error cause =>
      rw [hlocate] at hremove
      cases hremove
  | ok t =>
      rw [hlocate] at hremove
      cases hlook : tree.look t with
      | error cause =>
          simp only [hlook, bind, Except.bind] at hremove
          cases hremove
      | ok e =>
          simp only [hlook, bind, Except.bind] at hremove
          cases e with
          | directory => cases hremove
          | file f =>
              cases hremove
              exact ⟨t, f, rfl, (look_eq_ok_file_iff.1 hlook).1, rfl⟩

lemma entryAt_erase {names other : List String} (h : names ≠ []) :
    entry? (tree.erase names) other = if names = other then none else tree.entry? other := by
  by_cases hnil : other = []
  · rw [hnil, entryAt_nil, entryAt_nil, if_neg h]
  · rw [entryAt_of_ne_nil hnil, entryAt_of_ne_nil hnil, FileTree.erase, Std.TreeMap.getElem?_erase]
    simp

/-- A tree without one of its files is rooted, and finds nothing new. -/
lemma removeFile_ok (h : tree.Rooted) (hremove : tree.removeFile p = .ok tree') :
    tree'.Rooted ∧ ∀ q e, tree'.find? q = .ok e → tree.find? q = .ok e := by
  obtain ⟨t, f, -, hfile, rfl⟩ := exists_of_removeFile hremove
  have hnames : t.names ≠ [] := ne_nil_of_entryAt hfile (by simp)
  have hsubset : ∀ other e,
      entry? (tree.erase t.names) other = some e → tree.entry? other = some e := by
    intro other e hentry
    rw [entryAt_erase hnames] at hentry
    split_ifs at hentry
    exact hentry
  have hkeeps : tree.Keeps (tree.erase t.names) := by
    intro other hother
    rw [entryAt_erase hnames, if_neg]
    · exact hother
    · rintro rfl
      cases hother.symm.trans hfile
  have hhere : FileTree.here (tree.erase t.names) = tree.here := rfl
  refine ⟨⟨hkeeps _ h.here, fun other name hfound => hkeeps _ (h.around other name ?_)⟩,
    fun q e hfind => find?_of_subset hhere hsubset hfind⟩
  obtain ⟨e, he⟩ := Option.ne_none_iff_exists'.1 hfound
  have hne : other ++ [name] ≠ [] := by simp
  rw [← entryAt_of_ne_nil hne] at he
  rw [← entryAt_of_ne_nil hne, hsubset _ _ he]
  exact Option.some_ne_none e

/-! ## The whole write -/

variable {faults : Faults} {operation : FileOperation} {fresh : String} {file : File} {goal : Path}

lemma attempt_eq_ok {α : Type} {act : Except OsError α} {a : α}
    (h : attempt faults operation act = .ok a) : act = .ok a := by
  simp only [attempt] at h
  cases hfault : faults operation with
  | none =>
      rw [hfault] at h
      exact h
  | some cause =>
      rw [hfault] at h
      cases h

/-- One of these directories is made. -/
def Creates (ps : List Path) (tree tree' : FileTree) : Prop :=
  ∃ p ∈ ps, tree.createDirectory p = .ok tree'

/-- Directories are made one after the other, whether all of them could be made or not. -/
lemma creates_createDirectories (faults : Faults) (tree : FileTree) (ps : List Path) :
    Relation.ReflTransGen (Creates ps) tree (createDirectories faults tree ps).1 := by
  induction ps generalizing tree with
  | nil => exact .refl
  | cons p around ih =>
      have hcreate : ∀ {tree made : FileTree},
          attempt faults (.createDirectory p) (tree.createDirectory p) = .ok made →
          Creates (p :: around) tree made :=
        fun hmade => ⟨p, List.mem_cons_self, attempt_eq_ok hmade⟩
      have haround : Relation.ReflTransGen (Creates around)
          ≤ Relation.ReflTransGen (Creates (p :: around)) := by
        refine Relation.ReflTransGen.mono ?_
        rintro tree made ⟨q, hq, hcreated⟩
        exact ⟨q, List.mem_cons_of_mem p hq, hcreated⟩
      rw [createDirectories]
      by_cases hempty : p.text.isEmpty = true
      · rw [if_pos hempty]
      · rw [if_neg hempty]
        split
        · rename_i made hmade
          exact .single (hcreate hmade)
        · have hsteps := haround _ _ (ih tree)
          split
          · rename_i made hmade
            rw [hmade] at hsteps
            dsimp only
            split
            · rename_i again hagain
              exact hsteps.tail (hcreate hagain)
            · split_ifs <;> exact hsteps
          · rename_i made cause hmade
            rw [hmade] at hsteps
            exact hsteps
        · split_ifs <;> exact .refl

/-- Making directories changes nothing that was there. -/
lemma createDirectories_changes (faults : Faults) (paths : List Path) (h : tree.Rooted) :
    Changes (fun _ => False) tree (createDirectories faults tree paths).1 := by
  have hsteps := creates_createDirectories faults tree paths
  generalize (createDirectories faults tree paths).1 = made at hsteps ⊢
  induction hsteps with
  | refl => exact .refl h
  | tail _ hstep ih =>
      obtain ⟨p, -, hcreate⟩ := hstep
      exact ih.trans (createDirectory_ok ih.rooted hcreate)

/-- A temporary file that could be filled is there. -/
lemma fillTemporary_ok {temporary : Path} (h : tree.Rooted)
    (hfill : fillTemporary faults tree temporary file = (tree', .ok ())) :
    ∃ t, tree'.locate temporary = .ok t ∧ tree'.look t = .ok (.file file)
      ∧ Changes (· = t.names) tree tree' := by
  simp only [fillTemporary] at hfill
  split at hfill
  · cases hfill
  · rename_i opened hopened
    split at hfill
    · cases hfill
    · rename_i written hwritten
      obtain ⟨t, hlocate, -, hchanges, -⟩ := write_ok h (attempt_eq_ok hopened)
      obtain ⟨t', hlocate', hslash, hchanges', hfound⟩ :=
        write_ok hchanges.rooted (attempt_eq_ok hwritten)
      cases (hchanges.locate hlocate).symm.trans hlocate'
      cases hsync : faults .syncTemporary with
      | some cause =>
          rw [hsync] at hfill
          cases hfill
      | none =>
          rw [hsync] at hfill
          cases hfill
          exact ⟨t, hchanges'.locate hlocate', look_eq_ok_file_iff.2 ⟨hfound, hslash⟩,
            hchanges.trans hchanges'⟩

lemma length_temporaryName (fresh : String) :
    (temporaryName fresh).text.length = fresh.length + 5 := by
  simp only [temporaryName, String.length_append]
  have hdot : ".".length = 1 := by decide
  have hend : ".tmp".length = 4 := by decide
  omega

/-- The name of a temporary file is plain, if what makes it unlike others has no slash. -/
lemma plainName_temporary (h : '/' ∉ fresh.toList) : PlainName (temporaryName fresh).text where
  noSlash := by
    simp only [temporaryName, String.toList_append, List.mem_append, not_or]
    exact ⟨⟨by decide, h⟩, by decide⟩
  ne_empty heq := by
    have hlength := length_temporaryName fresh
    rw [heq] at hlength
    exact absurd hlength (by simp)
  ne_current heq := by
    have hlength := length_temporaryName fresh
    rw [heq, (by decide : ".".length = 1)] at hlength
    omega
  ne_parent heq := by
    have hlength := length_temporaryName fresh
    rw [heq, (by decide : "..".length = 2)] at hlength
    omega

/-- **A write that succeeds puts the file at its goal, and changes nothing else** but the temporary
name beside it. -/
theorem writeAtomic_ok (h : tree.Rooted) (hfresh : '/' ∉ fresh.toList)
    (hwrite : tree.writeAtomic faults fresh goal file = (tree', .ok ())) :
    tree'.find? goal = .ok (.file file) ∧ ∃ g, tree'.locate goal = .ok g
      ∧ Changes (fun names => names.getLast? = some (temporaryName fresh).text ∨ names = g.names)
        tree tree' := by
  simp only [writeAtomic] at hwrite
  split at hwrite
  · cases hwrite
  · rename_i parent hparent
    have hdirectories := createDirectories_changes faults (lineage parent) h
    split at hwrite
    · cases hwrite
    · rename_i made hmade
      rw [hmade] at hdirectories
      split at hwrite
      · cases hwrite
      · rename_i filled hfilled
        obtain ⟨t, hlocate, hlook, hfill⟩ := fillTemporary_ok hdirectories.rooted hfilled
        split at hwrite
        · cases hwrite
        · rename_i done hdone
          cases hwrite
          obtain ⟨hname, -⟩ := locate_join (plainName_temporary hfresh) hlocate
          have hrename := attempt_eq_ok hdone
          cases hgoal : filled.locate goal with
          | error cause =>
              simp only [rename, hlocate, hgoal, bind, Except.bind] at hrename
              cases hrename
          | ok g =>
              obtain ⟨hmoved, hfind⟩ := rename_ok hfill.rooted hrename hlocate hgoal hlook
              have htemporary : t.names.getLast? = some (temporaryName fresh).text := by
                rw [names_eq_append hname, List.getLast?_concat]
              refine ⟨hfind, g, hmoved.locate hgoal, ?_⟩
              refine ((hdirectories.mono fun _ hno => absurd hno id).trans
                (hfill.mono fun _ heq => ?_)).trans (hmoved.mono fun _ heq => ?_)
              · rw [heq]
                exact Or.inl htemporary
              · rcases heq with rfl | rfl
                · exact Or.inl htemporary
                · exact Or.inr rfl

end Rebuild.FileTree
