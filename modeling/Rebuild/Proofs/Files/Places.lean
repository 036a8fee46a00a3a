import Mathlib.Data.List.Induction
import Rebuild.Proofs.Files.Reading
import Rebuild.Proofs.Path.Normal

/-!
# Where a path leads

`FileTree.locate` walks along directories only, so a change that keeps all directories keeps every
way (`locate_of_keeps`).

* **Rooted trees.**  Whatever has a name stands in a directory (`Rooted`); then nothing is below a
  file, and a path leads into a directory (`Rooted.locate`).
* **Last names.**  A path that ends in a name leads to that name (`locate_join`).
-/

namespace Rebuild

namespace FileTree

variable {tree tree' : FileTree} {p : Path} {t : Target}

/-! ## Looking -/

lemma look_eq_ok_file_iff {f : File} :
    tree.look t = .ok (.file f) ↔ tree.entry? t.names = some (.file f) ∧ t.slash = false := by
  simp only [look]
  cases tree.entry? t.names with
  | none => simp
  | some entry =>
      cases entry with
      | directory => simp
      | file found =>
          simp only
          split_ifs with hslash <;> simp [hslash]

lemma look_eq_ok_directory_iff :
    tree.look t = .ok .directory ↔ tree.entry? t.names = some .directory := by
  simp only [look]
  cases tree.entry? t.names with
  | none => simp
  | some entry =>
      cases entry with
      | directory => simp
      | file found =>
          simp only
          split_ifs <;> simp

lemma find?_eq_ok_iff {e : FileEntry} :
    tree.find? p = .ok e ↔ ∃ t, tree.locate p = .ok t ∧ tree.look t = .ok e := by
  simp only [find?]
  cases tree.locate p with
  | error cause => simp [bind, Except.bind]
  | ok t => simp [bind, Except.bind]

lemma entryAt_of_ne_nil {names : List String} (h : names ≠ []) :
    tree.entry? names = tree.entries[names]? := if_neg h

@[simp] lemma entryAt_nil : tree.entry? [] = some .directory := if_pos rfl

/-- What is not the root has a name. -/
lemma ne_nil_of_entryAt {names : List String} {found : Option FileEntry}
    (h : tree.entry? names = found) (hfound : found ≠ some .directory) : names ≠ [] := by
  rintro rfl
  exact hfound (h.symm.trans entryAt_nil)

lemma names_eq_append {name : String} (h : t.name = some name) : t.names = t.parent ++ [name] := by
  simp [Target.names, h]

/-- A file that is found is in the table. -/
lemma exists_entry_of_find? {f : File} (h : tree.find? p = .ok (.file f)) :
    ∃ names : List String, tree.entries[names]? = some (.file f) := by
  obtain ⟨t, -, hlook⟩ := find?_eq_ok_iff.1 h
  obtain ⟨hentry, -⟩ := look_eq_ok_file_iff.1 hlook
  refine ⟨t.names, ?_⟩
  by_cases hnil : t.names = []
  · rw [hnil, entryAt_nil] at hentry
    cases hentry
  · rwa [entryAt_of_ne_nil hnil] at hentry

/-- Whatever the files of a tree hold is known, if the table of the tree holds nothing else. -/
lemma within_of_entries {known : Set ByteArray}
    (h : ∀ (names : List String) (f : File),
      tree.entries[names]? = some (.file f) → f.bytes ∈ known) :
    Within known tree := by
  intro p bytes hread
  obtain ⟨f, hfind, rfl⟩ := readBytes_eq_ok_iff.1 hread
  obtain ⟨names, hentry⟩ := exists_entry_of_find? hfind
  exact h names f hentry

/-! ## The way to a target -/

/-- All directories of the one tree are directories of the other. -/
def Keeps (tree tree' : FileTree) : Prop :=
  ∀ names, tree.entry? names = some .directory → tree'.entry? names = some .directory

lemma walk_of_keeps (h : tree.Keeps tree') (slash : Bool) (steps : List String)
    {start : List String}
    (hwalk : tree.walk start slash steps = .ok t) : tree'.walk start slash steps = .ok t := by
  induction steps generalizing start with
  | nil => exact hwalk
  | cons step rest ih =>
      simp only [walk] at hwalk ⊢
      split_ifs at hwalk ⊢
      · exact ih hwalk
      · exact ih hwalk
      · exact hwalk
      · cases hentry : tree.entry? (start ++ [step]) with
        | none =>
            rw [hentry] at hwalk
            cases hwalk
        | some entry =>
            rw [hentry] at hwalk
            cases entry with
            | file f => cases hwalk
            | directory =>
                rw [h _ hentry]
                exact ih hwalk

/-- Where directories stay, a path leads where it led. -/
lemma locate_of_keeps (h : tree.Keeps tree') (hhere : tree'.here = tree.here)
    (hlocate : tree.locate p = .ok t) : tree'.locate p = .ok t := by
  simp only [locate] at hlocate ⊢
  rw [hhere]
  split_ifs at hlocate ⊢
  all_goals exact walk_of_keeps h _ _ hlocate

/-- A walk that ends in a name, which is neither `.` nor `..`, leads to that name. -/
lemma walk_append_name {name : String} (hcurrent : name ≠ ".") (hparent : name ≠ "..")
    (slash : Bool)
    (steps : List String) {start : List String}
    (hwalk : tree.walk start slash (steps ++ [name]) = .ok t) :
    t.name = some name ∧ t.slash = slash := by
  induction steps generalizing start with
  | nil =>
      simp only [List.nil_append, walk, if_neg hcurrent, if_neg hparent, if_true] at hwalk
      split_ifs at hwalk
      cases hwalk
      exact ⟨rfl, rfl⟩
  | cons step rest ih =>
      have hne : rest ++ [name] ≠ [] := by simp
      simp only [List.cons_append, walk, if_neg hne] at hwalk
      split_ifs at hwalk
      · exact ih hwalk
      · exact ih hwalk
      · cases hentry : tree.entry? (start ++ [step]) with
        | none =>
            rw [hentry] at hwalk
            cases hwalk
        | some entry =>
            rw [hentry] at hwalk
            cases entry with
            | file f => cases hwalk
            | directory => exact ih hwalk

/-- The name of a file in a directory. -/
structure PlainName (name : String) : Prop where
  noSlash : '/' ∉ name.toList
  ne_empty : name ≠ ""
  ne_current : name ≠ "."
  ne_parent : name ≠ ".."

lemma PlainName.endsWith {name : String} (h : PlainName name) (before : String) :
    (before ++ name).endsWith "/" = false := by
  rw [Bool.eq_false_iff]
  intro hends
  rw [Text.endsWith_iff] at hends
  obtain ⟨front, hfront⟩ := hends
  have hlast : (before ++ name).toList.getLast? = some '/' := by
    rw [← hfront]
    simp
  have hne : name.toList ≠ [] := by
    intro hnil
    exact h.ne_empty (String.toList_eq_nil_iff.1 hnil)
  rw [String.toList_append, List.getLast?_append, List.getLast?_eq_some_getLast hne] at hlast
  rw [Option.some_or, ← List.getLast?_eq_some_getLast hne] at hlast
  exact h.noSlash (List.mem_of_getLast? hlast)

lemma PlainName.not_isAbsolute {name : String} (h : PlainName name) :
    (⟨name⟩ : Path).isAbsolute = false := by
  simp only [Path.isAbsolute, beq_eq_false_iff_ne]
  intro hhead
  exact h.noSlash (List.mem_of_head? hhead)

/-- The steps of a path as the operating system takes them. -/
def steps (p : Path) : List String :=
  ((Text.split '/' p.text.toList).map String.ofList).filter (· ≠ "")

/-- Where the walk along a path begins. -/
def origin (tree : FileTree) (p : Path) : List String := if p.isAbsolute then [] else tree.here

lemma walk_of_locate (hlocate : tree.locate p = .ok t) :
    p.text ≠ "" ∧ tree.walk (tree.origin p) (p.text.endsWith "/") (steps p) = .ok t := by
  simp only [locate] at hlocate
  split_ifs at hlocate with hempty hlong habsolute
  · refine ⟨by simpa using hempty, ?_⟩
    rw [origin, if_pos habsolute]
    exact hlocate
  · refine ⟨by simpa using hempty, ?_⟩
    rw [origin, if_neg habsolute]
    exact hlocate

lemma steps_of_text {before after : List Char} (h : p.text.toList = before ++ '/' :: after) :
    steps p = steps ⟨String.ofList before⟩ ++ steps ⟨String.ofList after⟩ := by
  simp only [steps, h, Text.split_append_sep, List.map_append, List.filter_append,
    String.toList_ofList]

lemma steps_name {name : String} (h : PlainName name) : steps ⟨name⟩ = [name] := by
  rw [steps, Text.split_of_not_mem h.noSlash]
  simp [h.ne_empty]

@[simp] lemma steps_empty : steps ⟨""⟩ = [] := rfl

/-- A path to a name in a directory takes the steps of the directory and then the name. -/
lemma steps_join {name : String} (h : PlainName name) (p : Path) :
    steps (p.join ⟨name⟩) = steps p ++ [name] := by
  simp only [Path.join, h.not_isAbsolute, Bool.false_eq_true, if_false]
  split_ifs with hend
  · rcases Bool.or_eq_true_iff.mp hend with hempty | hslash
    · obtain rfl : p = ⟨""⟩ := by
        rw [Path.mk.injEq] at *
        exact String.isEmpty_iff.1 hempty
      rw [String.empty_append, steps_name h, steps_empty, List.nil_append]
    · obtain ⟨front, hfront⟩ := (Text.endsWith_iff _ _).1 hslash
      have hp : steps p = steps ⟨String.ofList front⟩ := by
        exact (steps_of_text hfront.symm).trans (List.append_nil _)
      have htext : (p.text ++ name).toList = front ++ '/' :: name.toList := by
        rw [String.toList_append, ← hfront, List.append_assoc]
        rfl
      rw [hp, ← steps_name h]
      exact (steps_of_text htext).trans (by rw [String.ofList_toList])
  · have htext : (p.text ++ "/" ++ name).toList = p.text.toList ++ '/' :: name.toList := by
      rw [String.toList_append, String.toList_append, List.append_assoc]
      rfl
    rw [← steps_name h]
    exact (steps_of_text htext).trans (by rw [String.ofList_toList, String.ofList_toList])

lemma exists_text_join {name : String} (h : PlainName name) (p : Path) :
    ∃ before, (p.join ⟨name⟩).text = before ++ name := by
  simp only [Path.join, h.not_isAbsolute, Bool.false_eq_true, if_false]
  split_ifs
  · exact ⟨_, rfl⟩
  · exact ⟨_, rfl⟩

/-- A path to a name in a directory leads to that name. -/
lemma locate_join {name : String} (h : PlainName name)
    (hlocate : tree.locate (p.join ⟨name⟩) = .ok t) :
    t.name = some name ∧ t.slash = false := by
  obtain ⟨before, htext⟩ := exists_text_join h p
  obtain ⟨-, hwalk⟩ := walk_of_locate hlocate
  rw [steps_join h] at hwalk
  obtain ⟨hname, hslash⟩ := walk_append_name h.ne_current h.ne_parent _ _ hwalk
  rw [htext, h.endsWith] at hslash
  exact ⟨hname, hslash⟩

/-! ## Rooted trees -/

/-- Whatever has a name stands in a directory, and so does the reader. -/
structure Rooted (tree : FileTree) : Prop where
  here : tree.entry? tree.here = some .directory
  around : ∀ names name, tree.entries[names ++ [name]]? ≠ none → tree.entry? names = some .directory

namespace Rooted

/-- What is around a directory is a directory. -/
lemma dropLast (h : tree.Rooted) {names : List String}
    (hnames : tree.entry? names = some .directory) :
    tree.entry? names.dropLast = some .directory := by
  rcases List.eq_nil_or_concat names with rfl | ⟨around, name, rfl⟩
  · exact hnames
  · rw [List.concat_eq_append] at hnames ⊢
    rw [List.dropLast_concat]
    refine h.around around name ?_
    rw [entryAt_of_ne_nil (by simp)] at hnames
    rw [hnames]
    simp

/-- What is below something that is no directory is nothing. -/
lemma below (h : tree.Rooted) {names : List String} (hnames : tree.entry? names ≠ some .directory)
    (rest : List String) (hrest : rest ≠ []) : tree.entries[names ++ rest]? = none := by
  induction rest using List.reverseRecOn with
  | nil => exact absurd rfl hrest
  | append_singleton rest name ih =>
      by_contra hfound
      rw [← List.append_assoc] at hfound
      have hdirectory := h.around _ _ hfound
      by_cases hnil : rest = []
      · rw [hnil, List.append_nil] at hdirectory
        exact hnames hdirectory
      · rw [entryAt_of_ne_nil (by simp [hnil]), ih hnil] at hdirectory
        cases hdirectory

lemma walk (h : tree.Rooted) (slash : Bool) (steps : List String) {start : List String}
    (hstart : tree.entry? start = some .directory) (hwalk : tree.walk start slash steps = .ok t) :
    tree.entry? t.parent = some .directory := by
  induction steps generalizing start with
  | nil =>
      cases hwalk
      exact hstart
  | cons step rest ih =>
      simp only [FileTree.walk] at hwalk
      split_ifs at hwalk
      · exact ih hstart hwalk
      · exact ih (h.dropLast hstart) hwalk
      · cases hwalk
        exact hstart
      · cases hentry : tree.entry? (start ++ [step]) with
        | none =>
            rw [hentry] at hwalk
            cases hwalk
        | some entry =>
            rw [hentry] at hwalk
            cases entry with
            | file f => cases hwalk
            | directory => exact ih hentry hwalk

/-- A path leads into a directory. -/
lemma locate (h : tree.Rooted) (hlocate : tree.locate p = .ok t) :
    tree.entry? t.parent = some .directory := by
  simp only [FileTree.locate] at hlocate
  split_ifs at hlocate
  · exact h.walk _ _ entryAt_nil hlocate
  · exact h.walk _ _ h.here hlocate

/-- The tree stays rooted when something that has no directory's place is put into a directory. -/
lemma set (h : tree.Rooted) {names : List String} {name : String} {e : FileEntry}
    (hparent : tree.entry? names = some .directory)
    (hplace : tree.entry? (names ++ [name]) ≠ some .directory) :
    (tree.set (names ++ [name]) e).Rooted ∧ tree.Keeps (tree.set (names ++ [name]) e) := by
  have hkeeps : tree.Keeps (tree.set (names ++ [name]) e) := by
    intro other hother
    by_cases hnil : other = []
    · rw [hnil, entryAt_nil]
    · have hne : names ++ [name] ≠ other := by
        rintro rfl
        exact hplace hother
      rw [entryAt_of_ne_nil hnil] at hother ⊢
      rw [FileTree.set, Std.TreeMap.getElem?_insert, if_neg]
      · exact hother
      · simpa using hne
  refine ⟨⟨hkeeps _ h.here, fun other last hfound => ?_⟩, hkeeps⟩
  refine hkeeps _ ?_
  simp only [FileTree.set, Std.TreeMap.getElem?_insert] at hfound
  split_ifs at hfound with hcompare
  · have heq : names ++ [name] = other ++ [last] := by simpa using hcompare
    rw [← (List.append_inj' heq rfl).1]
    exact hparent
  · exact h.around _ _ hfound

end Rooted

/-! ## Trees of texts -/

/-- The tree with these files in its root: names and texts. -/
def ofTexts (files : List (String × String)) : FileTree where
  entries := files.foldl (fun entries f => entries.insert [f.1] (.file ⟨f.2.toUTF8, none⟩)) ∅

lemma entries_ofTexts {files : List (String × String)} {names : List String} {e : FileEntry}
    (h : (ofTexts files).entries[names]? = some e) :
    ∃ f ∈ files, names = [f.1] ∧ e = .file ⟨f.2.toUTF8, none⟩ := by
  -- The last file of a name is the one that stays.
  have hlast : ∀ files : List (String × String), (ofTexts files.reverse).entries[names]? = some e →
      ∃ f ∈ files, names = [f.1] ∧ e = .file ⟨f.2.toUTF8, none⟩ := by
    intro files h
    induction files with
    | nil => simp [ofTexts] at h
    | cons f files ih =>
        simp only [ofTexts, List.reverse_cons, List.foldl_append, List.foldl_cons, List.foldl_nil,
          Std.TreeMap.getElem?_insert] at h ih
        split_ifs at h with hname
        · cases h
          exact ⟨f, List.mem_cons_self, (by simpa using hname : [f.1] = names).symm, rfl⟩
        · obtain ⟨g, hg, hfound⟩ := ih h
          exact ⟨g, List.mem_cons_of_mem _ hg, hfound⟩
  rw [← List.reverse_reverse files] at h
  obtain ⟨f, hf, hfound⟩ := hlast files.reverse h
  exact ⟨f, List.mem_reverse.1 hf, hfound⟩

lemma within_ofTexts {known : Set ByteArray} {files : List (String × String)}
    (h : ∀ f ∈ files, f.2.toUTF8 ∈ known) : Within known (ofTexts files) := by
  refine within_of_entries fun names file hentry => ?_
  obtain ⟨f, hf, -, hfile⟩ := entries_ofTexts hentry
  cases hfile
  exact h f hf

lemma rooted_ofTexts (files : List (String × String)) : (ofTexts files).Rooted := by
  refine ⟨entryAt_nil, fun names name hfound => ?_⟩
  obtain ⟨e, he⟩ := Option.ne_none_iff_exists'.1 hfound
  obtain ⟨f, -, hnames, -⟩ := entries_ofTexts he
  have hlength : (names ++ [name]).length = 1 := by
    rw [hnames]
    rfl
  have hnil : names = [] := by
    simpa using hlength
  rw [hnil, entryAt_nil]

end FileTree
end Rebuild
