import Rebuild.Proofs.Files.Replacing
import Rebuild.Proofs.Path.Relative

/-!
# The directories around a path

The path of a directory around another path takes the first of its steps (`Around`), and so do all
of `FileTree.lineage`.  Where the way into a directory is there already, nothing is made on it
(`createDirectories_eq`).
-/

namespace Rebuild

namespace FileTree

variable {tree tree' : FileTree} {p q r : Path} {t s : Target}

/-! ## Around a path -/

/-- The path takes the first of the steps to the other one, and not all of them. -/
structure Around (p q : Path) : Prop where
  begins : ∃ rest, rest ≠ [] ∧ steps q = steps p ++ rest
  isAbsolute : p.text = "" ∨ p.isAbsolute = q.isAbsolute

/-- The steps of pieces. -/
lemma steps_eq_filter (p : Path) :
    steps p = ((p.pieces.map Prod.fst).map String.ofList).filter (· ≠ "") := by
  rw [Path.map_fst_pieces, steps]

/-- The first pieces of a path have nothing but their steps. -/
lemma ofPieces_of_isPrefix {ps : List Path.Piece} (h : ps <+: q.pieces) :
    steps (Path.ofPieces ps) = ((ps.map Prod.fst).map String.ofList).filter (· ≠ "")
      ∧ ((Path.ofPieces ps).text = "" ∨ (Path.ofPieces ps).isAbsolute = q.isAbsolute) := by
  rw [Path.ofPieces]
  split_ifs with hroot
  · obtain ⟨⟨piece, c⟩, rfl⟩ : ∃ piece, ps = [piece] := by
      rw [← List.length_eq_one_iff, ← List.length_map (f := Prod.snd), hroot]
      rfl
    obtain rfl : c = some .root := by simpa using hroot
    obtain ⟨rfl, habsolute⟩ := Path.of_root_mem_pieces (h.subset List.mem_cons_self)
    exact ⟨rfl, .inr habsolute.symm⟩
  · have hpieces : ps.map Prod.fst <+: Text.split '/' q.text.toList := by
      rw [← Path.map_fst_pieces]
      exact h.map Prod.fst
    have hslash : ∀ piece ∈ ps.map Prod.fst, '/' ∉ piece :=
      fun piece hpiece => Text.not_mem_of_mem_split (hpieces.subset hpiece)
    generalize ps.map Prod.fst = texts at hpieces hslash
    cases texts with
    | nil => exact ⟨rfl, .inl rfl⟩
    | cons first rest =>
        have hsplit : Text.split '/' (Path.mk (String.ofList
            (Text.join ['/'] (first :: rest)))).text.toList = first :: rest := by
          rw [String.toList_ofList, Text.split_join (by simp) hslash]
        refine ⟨by rw [steps, hsplit], ?_⟩
        by_cases hempty : first = [] ∧ rest = []
        · rw [hempty.1, hempty.2]
          exact .inl rfl
        · obtain ⟨more, hmore⟩ := hpieces
          have hq : Text.split '/' q.text.toList = first :: (rest ++ more) := hmore.symm
          refine .inr (Bool.eq_iff_iff.2 ((Path.isAbsolute_iff_of_split hsplit).trans ?_))
          rw [Path.isAbsolute_iff_of_split hq]
          refine and_congr_right fun hfirst => ?_
          have hrest : rest ≠ [] := fun hrest => hempty ⟨hfirst, hrest⟩
          simp [hrest]

/-- The parent of a path is around it. -/
lemma around_parent (h : q.parent? = some r) : Around r q := by
  rw [Path.parent?] at h
  have htrim := Path.trimPieces_isPrefix q.pieces
  split at h
  · cases h
  · cases h
  · rename_i last before hnotRoot hreverse
    obtain rfl := Option.some.inj h
    rw [← List.reverse_reverse (Path.trimPieces q.pieces), hreverse, List.reverse_cons] at htrim
    -- The last piece that counts is a component other than the root, so it has a text.
    have hsome : last.2 ≠ none := by
      intro hnone
      have hdrop := List.head?_dropWhile_not (fun piece : Path.Piece => piece.2.isNone)
        q.pieces.reverse
      rw [Path.trimPieces, List.reverse_reverse] at hreverse
      simp [hreverse, hnone] at hdrop
    obtain ⟨c, hc⟩ := Option.ne_none_iff_exists'.1 hsome
    have hmem : (last.1, some c) ∈ q.pieces := by
      rw [← hc]
      exact htrim.subset (by simp)
    have hne : last.1 ≠ [] := by
      intro hnil
      rw [hnil] at hmem
      obtain rfl := Path.eq_root_of_mem_pieces hmem
      exact hnotRoot last.1 (by rw [← hc])
    have hfront := Path.trimPieces_isPrefix before.reverse
    generalize Path.trimPieces before.reverse = front at hfront ⊢
    obtain ⟨hsteps, habsolute⟩ :=
      ofPieces_of_isPrefix (hfront.trans ((List.prefix_append _ _).trans htrim))
    refine ⟨?_, habsolute⟩
    obtain ⟨between, hbetween⟩ := hfront
    obtain ⟨after, hafter⟩ := htrim
    have hname : String.ofList last.1 ≠ "" := by
      simpa [String.ext_iff] using hne
    refine ⟨(((between ++ last :: after).map Prod.fst).map String.ofList).filter (· ≠ ""), ?_, ?_⟩
    · simp [hname]
    · rw [hsteps, steps_eq_filter, ← hafter, ← hbetween]
      simp only [List.append_assoc, List.singleton_append, List.map_append, List.filter_append]

/-- What is around a path around another path is around that. -/
lemma Around.trans (h : Around p q) (hne : q.text ≠ "") (h' : Around q r) : Around p r := by
  obtain ⟨⟨rest, hrest, hp⟩, habsolute⟩ := h
  obtain ⟨⟨rest', hrest', hq⟩, habsolute'⟩ := h'
  refine ⟨⟨rest ++ rest', by simp [hrest], by rw [hq, hp, List.append_assoc]⟩, ?_⟩
  exact habsolute.imp_right fun heq => heq.trans (habsolute'.resolve_left hne)

/-- All directories around a directory around a path are around the path. -/
lemma around_of_mem_ancestry (n : Nat) (h : Around q r) (hp : p ∈ ancestry n q) : Around p r := by
  induction n generalizing q with
  | zero => exact List.mem_singleton.1 hp ▸ h
  | succ n ih =>
      rw [ancestry] at hp
      cases hparent : q.parent? with
      | none =>
          simp only [hparent] at hp
          exact List.mem_singleton.1 hp ▸ h
      | some up =>
          simp only [hparent] at hp
          rcases List.mem_cons.1 hp with rfl | hp
          · exact h
          · have hne : q.text ≠ "" := by
              intro hempty
              obtain rfl : q = ⟨""⟩ := by rw [← hempty]
              cases hparent
            exact ih ((around_parent hparent).trans hne h) hp

/-! ## Walks -/

/-- The way to something goes through directories. -/
lemma walk_of_append {start : List String} {slash slash' : Bool} {first rest : List String}
    (h : tree.Rooted) (hstart : tree.entry? start = some .directory)
    (hwalk : tree.walk start slash (first ++ rest) = .ok t)
    (hend : rest ≠ [] ∨ tree.entry? t.names = some .directory)
    (hfirst : tree.walk start slash' first = .ok s) : tree.entry? s.names = some .directory := by
  induction first generalizing start with
  | nil =>
      cases hfirst
      exact hstart
  | cons step first ih =>
      rw [List.cons_append] at hwalk
      simp only [FileTree.walk] at hwalk hfirst
      split_ifs at hwalk hfirst with hcurrent hparent hlong hlast hlast'
      · exact ih hstart hwalk hfirst
      · exact ih (h.dropLast hstart) hwalk hfirst
      · cases hwalk
        cases hfirst
        exact hend.resolve_left (fun hrest => hrest (List.append_eq_nil_iff.1 hlast).2)
      · exact absurd (List.append_eq_nil_iff.1 hlast).1 hlast'
      all_goals
        have hplace : tree.entry? (start ++ [step]) = some .directory := by
          cases hentry : tree.entry? (start ++ [step]) with
          | none => simp [hentry] at hwalk
          | some e =>
              cases e with
              | directory => rfl
              | file f => simp [hentry] at hwalk
        rw [hplace] at hwalk
      · cases hfirst
        exact hplace
      · rw [hplace] at hfirst
        exact ih hplace hwalk hfirst

/-- Without `..`, a walk goes down only. -/
lemma isPrefix_of_walk {start steps : List String} {slash : Bool} (hsteps : ".." ∉ steps)
    (hwalk : tree.walk start slash steps = .ok t) : start <+: t.parent := by
  induction steps generalizing start with
  | nil =>
      cases hwalk
      exact List.prefix_refl _
  | cons step rest ih =>
      obtain ⟨hne, hrest⟩ : ".." ≠ step ∧ ".." ∉ rest := by simpa using hsteps
      simp only [FileTree.walk, if_neg (Ne.symm hne)] at hwalk
      split_ifs at hwalk
      · exact ih hrest hwalk
      · cases hwalk
        exact List.prefix_refl _
      · split at hwalk
        · cases hwalk
        · cases hwalk
        · exact (List.prefix_append _ _).trans (ih hrest hwalk)

namespace Rooted

/-- All directories on the way to a directory are directories. -/
lemma of_isPrefix (h : tree.Rooted) {names first : List String}
    (hnames : tree.entry? names = some .directory) (hfirst : first <+: names) :
    tree.entry? first = some .directory := by
  obtain ⟨rest, rfl⟩ := hfirst
  induction rest using List.reverseRecOn with
  | nil => rwa [List.append_nil] at hnames
  | append_singleton rest name ih =>
      refine ih ?_
      rw [← List.append_assoc] at hnames
      have haround := h.dropLast hnames
      rwa [List.dropLast_concat] at haround

/-- What is found under a name stands in a directory. -/
lemma parent (h : tree.Rooted) {name : String} {e : FileEntry} (hname : t.name = some name)
    (hentry : tree.entry? t.names = some e) : tree.entry? t.parent = some .directory := by
  rw [names_eq_append hname, entryAt_of_ne_nil (by simp)] at hentry
  exact h.around _ name (by simp [hentry])

/-- Without `..`, a walk in any tree to a place in a directory of this one is a walk in this one. -/
lemma walk_of_walk (h : tree.Rooted) {start steps : List String} {slash : Bool}
    (hsteps : ".." ∉ steps) (hparent : tree.entry? t.parent = some .directory)
    (hwalk : tree'.walk start slash steps = .ok t) : tree.walk start slash steps = .ok t := by
  induction steps generalizing start with
  | nil => exact hwalk
  | cons step rest ih =>
      obtain ⟨hne, hrest⟩ : ".." ≠ step ∧ ".." ∉ rest := by simpa using hsteps
      simp only [FileTree.walk, if_neg (Ne.symm hne)] at hwalk ⊢
      split_ifs at hwalk ⊢
      · exact ih hrest hwalk
      · exact hwalk
      · cases hentry : tree'.entry? (start ++ [step]) with
        | none =>
            rw [hentry] at hwalk
            cases hwalk
        | some e =>
            rw [hentry] at hwalk
            cases e with
            | file f => cases hwalk
            | directory =>
                rw [h.of_isPrefix hparent (isPrefix_of_walk hrest hwalk)]
                exact ih hrest hwalk

end Rooted

/-- Where the way to a path is there already, nothing can be made on it. -/
lemma createDirectory_ne_ok (h : tree.Rooted) (hlocate : tree.locate q = .ok t)
    (habsolute : p.text = "" ∨ p.isAbsolute = q.isAbsolute) {rest : List String}
    (hsteps : steps q = steps p ++ rest)
    (hend : rest ≠ [] ∨ tree.entry? t.names = some .directory) :
    tree.createDirectory p ≠ .ok tree' := by
  intro hcreate
  obtain ⟨s, hs, hfree, -⟩ := exists_of_createDirectory hcreate
  obtain ⟨-, hwalk⟩ := walk_of_locate hlocate
  obtain ⟨hne, hfirst⟩ := walk_of_locate hs
  have horigin : tree.origin p = tree.origin q := by
    rw [origin, habsolute.resolve_left hne, origin]
  rw [horigin] at hfirst
  rw [hsteps] at hwalk
  have hstart : tree.entry? (tree.origin q) = some .directory := by
    rw [origin]
    split_ifs
    · exact entryAt_nil
    · exact h.here
  cases hfree.symm.trans (walk_of_append h hstart hwalk hend hfirst)

/-- Where no directory can be made, making directories changes nothing. -/
lemma createDirectories_eq (faults : Faults) {ps : List Path}
    (h : ∀ p ∈ ps, ∀ made, tree.createDirectory p ≠ .ok made) :
    (createDirectories faults tree ps).1 = tree := by
  induction ps with
  | nil => rfl
  | cons p around ih =>
      have hnone : ∀ made, attempt faults (.createDirectory p) (tree.createDirectory p) ≠ .ok made :=
        fun made hmade => h p List.mem_cons_self made (attempt_eq_ok hmade)
      have haround := ih fun q hq => h q (List.mem_cons_of_mem _ hq)
      rw [createDirectories]
      by_cases hempty : p.text.isEmpty = true
      · rw [if_pos hempty]
      · rw [if_neg hempty]
        split
        · rename_i made hmade
          exact absurd hmade (hnone made)
        · split
          · rename_i made hmade
            rw [hmade] at haround
            obtain rfl := haround
            dsimp only
            split
            · rename_i again hagain
              exact absurd hagain (hnone again)
            · split_ifs <;> rfl
          · rename_i made cause hmade
            rw [hmade] at haround
            exact haround
        · split_ifs <;> rfl

/-! ## Directories of documents -/

/-- The tree with the directories around a path, as far as they can be made. -/
def furnish (faults : Faults) (tree : FileTree) (goal : Path) : FileTree :=
  match goal.parent? with
  | none => tree
  | some parent => (createDirectories faults tree (lineage parent)).1

lemma isAbsolute_join {name : String} (h : PlainName name) (d : Path) :
    (d.join ⟨name⟩).isAbsolute = d.isAbsolute := by
  have hhead : ∀ {before after : String}, before ≠ "" →
      (⟨before ++ after⟩ : Path).isAbsolute = (⟨before⟩ : Path).isAbsolute := by
    intro before after hne
    have hlist : before.toList ≠ [] := fun hnil => hne (String.toList_eq_nil_iff.1 hnil)
    obtain ⟨c, cs, hcs⟩ := List.exists_cons_of_ne_nil hlist
    simp [Path.isAbsolute, String.toList_append, hcs]
  by_cases hempty : d.text = ""
  · obtain rfl : d = ⟨""⟩ := by rw [← hempty]
    rw [Path.join, if_neg (by simp [h.not_isAbsolute])]
    exact h.not_isAbsolute
  · simp only [Path.join, h.not_isAbsolute, Bool.false_eq_true, if_false]
    split_ifs
    · exact hhead hempty
    · rw [String.append_assoc]
      exact hhead hempty

/-- What is around a name in a directory takes the first steps to the directory. -/
lemma Around.exists_steps {d : Path} {name : String} (h : PlainName name)
    (haround : Around p (d.join ⟨name⟩)) : ∃ rest, steps d = steps p ++ rest := by
  obtain ⟨rest, hrest, hsteps⟩ := haround.begins
  rw [steps_join h] at hsteps
  obtain ⟨before, last, rfl⟩ := List.eq_nil_or_concat' rest |>.resolve_left hrest
  rw [← List.append_assoc] at hsteps
  exact ⟨before, (List.append_inj' hsteps rfl).1⟩

/-- Where a directory is there, or the way to something in it, nothing has to be made for what is
written in the directory. -/
lemma furnish_eq (faults : Faults) (h : tree.Rooted) {d : Path} {name : String}
    (hname : PlainName name)
    (hdirectory : tree.isDirectory d = true
      ∨ ∃ other t, PlainName other ∧ tree.locate (d.join ⟨other⟩) = .ok t) :
    furnish faults tree (d.join ⟨name⟩) = tree := by
  rw [furnish]
  cases hparent : (d.join ⟨name⟩).parent? with
  | none => rfl
  | some parent =>
      refine createDirectories_eq faults fun p hp made => ?_
      have haround := around_of_mem_ancestry _ (around_parent hparent) hp
      obtain ⟨rest, hsteps⟩ := haround.exists_steps hname
      have habsolute := haround.isAbsolute
      rw [isAbsolute_join hname] at habsolute
      rcases hdirectory with hdirectory | ⟨other, t, hother, hlocate⟩
      · rw [isDirectory] at hdirectory
        split at hdirectory
        · rename_i hfind
          obtain ⟨t, hlocate, hlook⟩ := find?_eq_ok_iff.1 hfind
          exact createDirectory_ne_ok h hlocate habsolute hsteps
            (.inr (look_eq_ok_directory_iff.1 hlook))
        · cases hdirectory
      · rw [← isAbsolute_join hother d] at habsolute
        have hmore : steps (d.join ⟨other⟩) = steps p ++ (rest ++ [other]) := by
          rw [steps_join hother, hsteps, List.append_assoc]
        exact createDirectory_ne_ok h hlocate habsolute hmore (.inl (by simp))

end FileTree
end Rebuild
