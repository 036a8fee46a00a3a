import Rebuild.Proofs.Files.Failing

/-!
# All or nothing

`FileTree.writeAtomic` can fail at each of its steps, with the tree between the old one and the new
one.  Whichever operations fail, and whatever is in the way, the goal has the whole content or nothing
has changed but that there may be directories on the way to it (`writeAtomic_whole`).

* **On the way.**  `entryAt_createDirectories`: what has come by making directories is one of them.
* **Fresh names.**  `FreshName`: nothing is under the temporary name, and the goal does not lead
  through it; so directories that are made do not have it either.
* **The temporary file.**  `fillTemporary_cases` says what is there when it could not be filled, and
  `beside_discard_fillTemporary` that discarding it leads back.
-/

namespace Rebuild.FileTree

variable {tree tree' made filled : FileTree} {p goal parent : Path} {t g : Target}
  {P Q : List String → Prop} {faults : Faults} {fresh : String} {file : File} {names : List String}
  {e : FileEntry}

/-! ## On the way to the goal -/

/-- A path to a directory around the goal leads to these names. -/
def OnTheWay (tree : FileTree) (goal : Path) (names : List String) : Prop :=
  ∃ parent p t, goal.parent? = some parent ∧ p ∈ lineage parent ∧ tree.locate p = .ok t
    ∧ t.names = names

/-- From one tree to another one: but for these names, all that was there is there, and what has come
are directories on the way to the goal. -/
structure Intact (goal : Path) (P : List String → Prop) (tree tree' : FileTree) : Prop where
  here : tree'.here = tree.here
  kept : ∀ names e, ¬P names → tree.entry? names = some e → tree'.entry? names = some e
  come : ∀ names e, ¬P names → tree'.entry? names = some e →
    tree.entry? names = some e ∨ (e = .directory ∧ OnTheWay tree' goal names)

/-- What has come by making directories is one of them. -/
lemma entryAt_createDirectories (faults : Faults) (tree : FileTree) (ps : List Path)
    (hentry : entry? (createDirectories faults tree ps).1 names = some e) :
    tree.entry? names = some e ∨ (e = .directory
      ∧ ∃ p ∈ ps, ∃ t, (createDirectories faults tree ps).1.locate p = .ok t ∧ t.names = names) := by
  have hsteps := creates_createDirectories faults tree ps
  generalize (createDirectories faults tree ps).1 = made at hsteps hentry ⊢
  induction hsteps with
  | refl => exact .inl hentry
  | @tail before after _ hstep ih =>
      obtain ⟨p, hp, hcreate⟩ := hstep
      have hfurnished := furnished_createDirectory hcreate
      have hleads : ∀ {p t}, before.locate p = .ok t → after.locate p = .ok t :=
        fun hlocate => locate_of_keeps (fun names => hfurnished.kept names _) hfurnished.here hlocate
      obtain ⟨t, hlocate, hfree, hset⟩ := exists_of_createDirectory hcreate
      have hne : t.names ≠ [] := ne_nil_of_entryAt hfree (by simp)
      rw [hset, entryAt_set hne] at hentry
      split_ifs at hentry with hnames
      · exact .inr ⟨(Option.some.inj hentry).symm, p, hp, t, hleads hlocate, hnames⟩
      · refine (ih hentry).imp_right ?_
        rintro ⟨rfl, q, hq, s, hs, rfl⟩
        exact ⟨rfl, q, hq, s, hleads hs, rfl⟩

lemma entryAt_furnish (hentry : entry? (furnish faults tree goal) names = some e) :
    tree.entry? names = some e ∨ (e = .directory ∧ OnTheWay (furnish faults tree goal) goal names) := by
  rw [furnish] at hentry ⊢
  cases hparent : goal.parent? with
  | none =>
      rw [hparent] at hentry
      exact .inl hentry
  | some parent =>
      rw [hparent] at hentry
      refine (entryAt_createDirectories faults tree _ hentry).imp_right ?_
      rintro ⟨rfl, p, hp, t, hlocate, rfl⟩
      exact ⟨rfl, parent, p, t, hparent, hp, hlocate, rfl⟩

/-- What is beside the furnished tree is beside the first one but for directories on the way. -/
lemma Beside.intact (h : Beside P (furnish faults tree goal) tree') : Intact goal P tree tree' where
  here := h.here.trans (furnished_furnish faults tree goal).here
  kept names e hP hentry :=
    (h.same names hP).trans ((furnished_furnish faults tree goal).kept names e hentry)
  come names e hP hentry := by
    rw [h.same names hP] at hentry
    refine (entryAt_furnish hentry).imp_right ?_
    rintro ⟨rfl, parent, p, t, hparent, hp, hlocate, rfl⟩
    exact ⟨rfl, parent, p, t, hparent, hp, h.locate.2 hlocate, rfl⟩

/-- Names with the same under them need not be left out. -/
lemma Beside.sharpen (h : Beside P tree tree')
    (hPQ : ∀ names, P names → ¬Q names → tree'.entry? names = tree.entry? names) :
    Beside Q tree tree' where
  here := h.here
  directories := h.directories
  same names hQ := (em (P names)).elim (fun hP => hPQ names hP hQ) (h.same names)

/-! ## Fresh names -/

/-- Nothing is under the name of the temporary file, and the goal does not lead through it. -/
structure FreshName (fresh : String) (tree : FileTree) (goal : Path) : Prop where
  noSlash : '/' ∉ fresh.toList
  absent : ∀ names, IsTemporary fresh names → tree.entry? names = none
  aside : (temporaryName fresh).text ∉ steps goal

/-- A walk has its names from where it starts and from its steps. -/
lemma mem_of_walk {start steps : List String} {slash : Bool} {name : String}
    (hwalk : tree.walk start slash steps = .ok t) (hname : name ∈ t.names) :
    name ∈ start ∨ name ∈ steps := by
  induction steps generalizing start with
  | nil =>
      cases hwalk
      exact .inl hname
  | cons step rest ih =>
      simp only [FileTree.walk] at hwalk
      rw [List.mem_cons]
      split_ifs at hwalk
      · exact (ih hwalk).imp_right .inr
      · exact (ih hwalk).imp (fun hin => List.dropLast_subset _ hin) .inr
      · cases hwalk
        obtain hstart | hstep := List.mem_append.1 hname
        · exact .inl hstart
        · exact .inr (.inl (List.mem_singleton.1 hstep))
      · split at hwalk
        · cases hwalk
        · cases hwalk
        · obtain hnext | hrest := ih hwalk
          · obtain hstart | hstep := List.mem_append.1 hnext
            · exact .inl hstart
            · exact .inr (.inl (List.mem_singleton.1 hstep))
          · exact .inr (.inr hrest)

namespace FreshName

/-- The working directory is not below the temporary name. -/
lemma not_mem_here (hfresh : FreshName fresh tree goal) (h : tree.Rooted) :
    (temporaryName fresh).text ∉ tree.here := by
  intro hmem
  obtain ⟨before, after, hhere⟩ := List.append_of_mem hmem
  have hdirectory : tree.entry? (before ++ [(temporaryName fresh).text]) = some .directory := by
    refine h.of_isPrefix h.here ⟨after, ?_⟩
    rw [hhere, List.append_assoc, List.singleton_append]
  cases (hfresh.absent _ List.getLast?_concat).symm.trans hdirectory

/-- The goal does not lead to the temporary name, and nor do the paths around it. -/
lemma not_isTemporary (hfresh : FreshName fresh tree goal) (h : tree.Rooted)
    (hhere : tree'.here = tree.here) (hsteps : steps p ⊆ steps goal)
    (hlocate : tree'.locate p = .ok t) : ¬IsTemporary fresh t.names := by
  intro htemporary
  obtain ⟨-, hwalk⟩ := walk_of_locate hlocate
  obtain hstart | hstep := mem_of_walk hwalk (List.mem_of_getLast? htemporary)
  · rw [origin, hhere] at hstart
    split_ifs at hstart
    · cases hstart
    · exact hfresh.not_mem_here h hstart
  · exact hfresh.aside (hsteps hstep)

/-- No directory on the way has the temporary name. -/
lemma absent_furnish (hfresh : FreshName fresh tree goal) (h : tree.Rooted)
    (hnames : IsTemporary fresh names) : entry? (furnish faults tree goal) names = none := by
  refine Option.eq_none_iff_forall_ne_some.2 fun e hentry => ?_
  obtain hold | ⟨-, parent, p, t, hparent, hp, hlocate, rfl⟩ := entryAt_furnish hentry
  · cases (hfresh.absent names hnames).symm.trans hold
  · obtain ⟨rest, -, hsteps⟩ := (around_of_mem_ancestry _ (around_parent hparent) hp).begins
    refine hfresh.not_isTemporary h (furnished_furnish faults tree goal).here ?_ hlocate hnames
    rw [hsteps]
    exact List.subset_append_left _ _

end FreshName

/-! ## The temporary file -/

/-- The temporary file is not there, or it is there and nothing else has changed; when it could be
filled it is there. -/
lemma fillTemporary_cases {temporary : Path} {result : Except BuildError Unit}
    (hfill : fillTemporary faults tree temporary file = (filled, result)) :
    (filled = tree ∧ ∃ e, result = .error e)
      ∨ ∃ t f, tree.locate temporary = .ok t ∧ Beside (· = t.names) tree filled
        ∧ filled.look t = .ok (.file f) := by
  rw [fillTemporary] at hfill
  split at hfill
  · cases hfill
    exact .inl ⟨rfl, _, rfl⟩
  · rename_i opened hopened
    obtain ⟨t, hlocate, hopen, hfile⟩ := exists_beside_of_write (attempt_eq_ok hopened)
    right
    split at hfill
    · cases hfill
      exact ⟨t, _, hlocate, hopen, hfile⟩
    · rename_i written hwritten
      obtain ⟨s, hlocate', hwrite, hfile'⟩ := exists_beside_of_write (attempt_eq_ok hwritten)
      cases hlocate'.symm.trans (hopen.locate.2 hlocate)
      split at hfill <;>
      · cases hfill
        exact ⟨t, _, hlocate, hopen.trans hwrite, hfile'⟩

/-- A file that is there can be removed. -/
lemma discard_eq {temporary : Path} {f : File} (hremove : faults .removeTemporary = none)
    (hlocate : tree.locate temporary = .ok t) (hfile : tree.look t = .ok (.file f)) :
    tree.discard faults temporary = tree.erase t.names := by
  simp only [discard, attempt, hremove, removeFile, hlocate, hfile, bind, Except.bind, pure,
    Except.pure]

/-- **Discarding the temporary file leads back**, if it can be removed. -/
lemma beside_discard_fillTemporary (hfresh : '/' ∉ fresh.toList)
    (habsent : ∀ names, IsTemporary fresh names → made.entry? names = none)
    (hremove : faults .removeTemporary = none) {result : Except BuildError Unit}
    (hfill : fillTemporary faults made (parent.join (temporaryName fresh)) file
      = (filled, result)) :
    Beside (fun _ => False) made
      (filled.discard faults (parent.join (temporaryName fresh))) := by
  obtain ⟨rfl, -⟩ | ⟨t, f, hlocate, hbeside, hfile⟩ := fillTemporary_cases hfill
  · rw [discard]
    split
    · rename_i cleaned hcleaned
      obtain ⟨t, f, hlocate, hfile, -⟩ := exists_of_removeFile (attempt_eq_ok hcleaned)
      cases (habsent _ (isTemporary_of_locate hfresh hlocate)).symm.trans hfile
    · exact .refl _
  · obtain ⟨hentry, -⟩ := look_eq_ok_file_iff.1 hfile
    have hne : t.names ≠ [] := ne_nil_of_entryAt hentry (by simp)
    rw [discard_eq hremove (hbeside.locate.2 hlocate) hfile]
    refine (hbeside.trans (beside_erase hentry)).sharpen ?_
    rintro names rfl -
    rw [entryAt_erase hne, if_pos rfl, habsent _ (isTemporary_of_locate hfresh hlocate)]

lemma entryAt_removeAll_self (hne : names ≠ []) : entry? (tree.removeAll names) names = none := by
  rw [entryAt_of_ne_nil hne, removeAll, Std.TreeMap.getElem?_filter', Option.filter_eq_none_iff]
  intro e _
  simp

/-- The temporary file is gone when it has been renamed. -/
lemma absent_of_writeAtomic (h : tree.Rooted) (hfresh : FreshName fresh tree goal)
    (hwrite : tree.writeAtomic faults fresh goal file = (tree', .ok ()))
    (hnames : IsTemporary fresh names) : tree'.entry? names = none := by
  cases writeEnds_writeAtomic hwrite with
  | @renamed parent filled _ hfill hrename =>
      obtain ⟨t, hlocate, hlook, hchanges⟩ := fillTemporary_ok (h.furnish faults goal) hfill
      obtain ⟨-, e, he⟩ | ⟨s, f, hlocate', hfilled, -⟩ := fillTemporary_cases hfill
      · cases he
      · cases hlocate.symm.trans (hfilled.locate.2 hlocate')
        have htemporary := isTemporary_of_locate hfresh.noSlash hlocate
        have hhere : filled.here = tree.here :=
          hfilled.here.trans (furnished_furnish faults tree goal).here
        cases hgoal : filled.locate goal with
        | error cause =>
            simp only [rename, hlocate, hgoal, bind, Except.bind] at hrename
            cases hrename
        | ok g =>
            have haside := hfresh.not_isTemporary h hhere (List.Subset.refl _) hgoal
            obtain ⟨-, ⟨hsame, -⟩ | ⟨hplace, rfl⟩⟩ :=
              eq_of_rename hchanges.rooted hrename hlocate hgoal hlook
            · exact absurd (hsame ▸ htemporary) haside
            · have hother : g.names ≠ names := by
                rintro rfl
                exact haside hnames
              rw [entryAt_set (ne_nil_of_entryAt rfl hplace), if_neg hother]
              refine Option.eq_none_iff_forall_ne_some.2 fun e hentry => ?_
              by_cases hself : names = t.names
              · subst hself
                have hfile := (look_eq_ok_file_iff.1 hlook).1
                have hne : t.names ≠ [] := ne_nil_of_entryAt hfile (by simp)
                cases (entryAt_removeAll_self hne).symm.trans hentry
              · have hleft := entryAt_of_removeAll hentry
                rw [hfilled.same names hself, hfresh.absent_furnish h hnames] at hleft
                cases hleft

/-! ## The whole write -/

/-- What is found stays if nothing was under the names that are left out. -/
lemma Intact.find? (h : Intact goal P tree tree') (hP : ∀ names, P names → tree.entry? names = none)
    (hfind : tree.find? p = .ok e) : tree'.find? p = .ok e := by
  have hkept : ∀ names e, tree.entry? names = some e → tree'.entry? names = some e := by
    intro names e hentry
    refine h.kept names e (fun hnames => ?_) hentry
    cases (hP names hnames).symm.trans hentry
  exact find?_of_subset h.here.symm hkept hfind

/-- After a write that fails there is a temporary file at most, and only if it cannot be removed. -/
lemma beside_of_writeAtomic_error (h : tree.Rooted) (hfresh : FreshName fresh tree goal)
    {error : BuildError}
    (hwrite : tree.writeAtomic faults fresh goal file = (tree', .error error)) :
    Beside (fun names => IsTemporary fresh names ∧ faults .removeTemporary ≠ none)
      (furnish faults tree goal) tree' := by
  by_cases hremove : faults .removeTemporary = none
  · refine Beside.mono (P := fun _ => False) ?_ fun _ hno => hno.elim
    cases writeEnds_writeAtomic hwrite with
    | unwritten _ => exact .refl _
    | discarded _ hfill =>
        exact beside_discard_fillTemporary hfresh.noSlash
          (fun names => hfresh.absent_furnish h) hremove hfill
  · exact (writeAtomic_error hfresh.noSlash hwrite).mono fun names hnames => ⟨hnames, hremove⟩

/-- **A write is all or nothing, whichever operations fail.**  If it succeeds then the goal has the
file, and but for the goal everything is as it was, or a new directory on the way to it.  If it fails
then everything is as it was, the goal included, or a new directory on the way, or the temporary file
if that could not be removed.  Otherwise no temporary file is left. -/
theorem writeAtomic_whole (h : tree.Rooted) (hfresh : FreshName fresh tree goal)
    {result : Except BuildError Unit}
    (hwrite : tree.writeAtomic faults fresh goal file = (tree', result)) :
    (result = .ok () → tree'.readBytes goal = .ok file.bytes
      ∧ ∃ g, tree'.locate goal = .ok g ∧ tree'.entry? g.names = some (.file file)
        ∧ Intact goal (· = g.names) tree tree')
      ∧ (∀ error, result = .error error →
        Intact goal (fun names => IsTemporary fresh names ∧ faults .removeTemporary ≠ none) tree tree'
        ∧ (∀ p e, tree.find? p = .ok e → tree'.find? p = .ok e)
        ∧ (".." ∉ steps goal → ∀ f,
          tree'.find? goal = .ok (.file f) ↔ tree.find? goal = .ok (.file f)))
      ∧ (result = .ok () ∨ faults .removeTemporary = none →
        ∀ names, IsTemporary fresh names → tree'.entry? names = none) := by
  refine ⟨?_, ?_, ?_⟩
  · rintro rfl
    obtain ⟨hfind, -⟩ := writeAtomic_ok h hfresh.noSlash hwrite
    obtain ⟨g, hlocate, hbeside⟩ := beside_writeAtomic h hfresh.noSlash hwrite
    obtain ⟨g', hlocate', hlook⟩ := find?_eq_ok_iff.1 hfind
    cases hlocate.symm.trans hlocate'
    refine ⟨readBytes_eq_ok_iff.2 ⟨file, hfind, rfl⟩, g, hlocate, (look_eq_ok_file_iff.1 hlook).1,
      (hbeside.sharpen fun names hnames hother => ?_).intact⟩
    have htemporary := hnames.resolve_right hother
    rw [absent_of_writeAtomic h hfresh hwrite htemporary, hfresh.absent_furnish h htemporary]
  · rintro error rfl
    have hbeside := beside_of_writeAtomic_error h hfresh hwrite
    have hfurnished := furnished_furnish faults tree goal
    refine ⟨hbeside.intact, fun p e => hbeside.intact.find? fun names hnames =>
      hfresh.absent names hnames.1, fun hsteps f => ?_⟩
    rw [hbeside.find?, hfurnished.find?_file_iff h (h.furnish faults goal) hsteps]
    intro t hlocate hnames
    exact hfresh.not_isTemporary h hfurnished.here (List.Subset.refl _) hlocate hnames.1
  · intro hgone names hnames
    obtain rfl | ⟨error, rfl⟩ : result = .ok () ∨ ∃ error, result = .error error := by
      cases result with
      | ok u => exact .inl rfl
      | error error => exact .inr ⟨error, rfl⟩
    · exact absent_of_writeAtomic h hfresh hwrite hnames
    · have hremove := hgone.resolve_left fun hok => by cases hok
      have hbeside := beside_of_writeAtomic_error h hfresh hwrite
      rw [hbeside.same names fun hno => hno.2 hremove]
      exact hfresh.absent_furnish h hnames

/-- Only renaming fails. -/
def renamingFails : Faults := fun operation =>
  if operation = .rename then some .resourceBusy else none

/-- The tree with the file `a`. -/
def oneFile : FileTree := ofTexts [("a", "old")]

/-- The file that is written. -/
def newFile : File := ⟨"new".toUTF8, none⟩

lemma freshName_oneFile (haside : (temporaryName "u").text ∉ steps goal) :
    FreshName "u" oneFile goal := by
  refine ⟨by decide, fun names hnames => ?_, haside⟩
  refine Option.eq_none_iff_forall_ne_some.2 fun e hentry => ?_
  have hne : names ≠ [] := by
    rintro rfl
    cases hnames
  rw [oneFile, entryAt_of_ne_nil hne] at hentry
  obtain ⟨f, hf, rfl, -⟩ := entries_ofTexts hentry
  rw [List.mem_singleton.1 hf, IsTemporary] at hnames
  exact absurd hnames (by decide)

/-- The file `d/b` is written with its directory, and `a` is left alone.  The file `a` cannot be
replaced if renaming fails.  No temporary file is left of either. -/
theorem writeAtomic_whole_two_writes :
    (∃ tree', oneFile.writeAtomic .none "u" ⟨"d/b"⟩ newFile = (tree', .ok ())
      ∧ tree'.readBytes ⟨"d/b"⟩ = .ok "new".toUTF8
      ∧ tree'.entry? ["a"] = some (.file ⟨"old".toUTF8, none⟩)
      ∧ ∀ names, IsTemporary "u" names → tree'.entry? names = none)
    ∧ ∃ tree' error, oneFile.writeAtomic renamingFails "u" ⟨"a"⟩ newFile = (tree', .error error)
      ∧ tree'.find? ⟨"a"⟩ = .ok (.file ⟨"old".toUTF8, none⟩)
      ∧ ∀ names, IsTemporary "u" names → tree'.entry? names = none := by
  have hrooted : oneFile.Rooted := rooted_ofTexts _
  constructor
  · have hok : (oneFile.writeAtomic .none "u" ⟨"d/b"⟩ newFile).2 = .ok () := by decide +kernel
    have hplace : ((oneFile.writeAtomic .none "u" ⟨"d/b"⟩ newFile).1.locate ⟨"d/b"⟩).toOption.map
        Target.names = some ["d", "b"] := by decide +kernel
    have hwrite : oneFile.writeAtomic .none "u" ⟨"d/b"⟩ newFile
        = ((oneFile.writeAtomic .none "u" ⟨"d/b"⟩ newFile).1, .ok ()) := Prod.ext rfl hok
    obtain ⟨hwritten, -, hgone⟩ :=
      writeAtomic_whole hrooted (freshName_oneFile (by decide)) hwrite
    obtain ⟨hread, g, hlocate, -, hintact⟩ := hwritten rfl
    rw [hlocate] at hplace
    have hnames : g.names = ["d", "b"] := Option.some.inj hplace
    have hother : ["a"] ≠ g.names := by
      rw [hnames]
      decide
    exact ⟨_, hwrite, hread, hintact.kept _ _ hother (by decide +kernel), hgone (.inl rfl)⟩
  · have hfailed : (oneFile.writeAtomic renamingFails "u" ⟨"a"⟩ newFile).2
        = .error (.fileSystem ⟨"a"⟩ "atomic rename" .resourceBusy) := by
      decide +kernel
    obtain ⟨tree', hwrite⟩ : ∃ tree', oneFile.writeAtomic renamingFails "u" ⟨"a"⟩ newFile
        = (tree', .error (.fileSystem ⟨"a"⟩ "atomic rename" .resourceBusy)) :=
      ⟨_, Prod.ext rfl hfailed⟩
    obtain ⟨-, herror, hgone⟩ := writeAtomic_whole hrooted (freshName_oneFile (by decide)) hwrite
    obtain ⟨-, hkept, -⟩ := herror _ rfl
    exact ⟨tree', _, hwrite, hkept _ _ (by decide +kernel), hgone (.inr rfl)⟩

end Rebuild.FileTree
