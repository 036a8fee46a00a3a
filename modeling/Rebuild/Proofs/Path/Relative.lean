import Mathlib.Data.List.Basic
import Rebuild.Proofs.Path.Normal

/-!
# Paths seen from a directory

A path is cut into pieces, some of which are no steps, and `Path.relativeTo?` keeps the pieces after
those of the directory.

* **Below a directory.**  `components_of_relativeTo?` and `exists_relativeTo?`: the path has the steps
  of the directory and then those that remain; `map_components_relativeTo?` says both, of any directory.
* **Normal forms.**  `pieces_of_normal`: all pieces are steps.  So the text of what remains is known
  (`relativeTo?_of_normal`).
* **The other way.**  `components_join`: a path in a directory takes the steps of both.
-/

namespace Rebuild.Path

variable {p q base rel : Path} {piece : List Char} {c : Component} {ps : List Piece}

/-! ## Pieces -/

lemma map_fst_pieces (p : Path) : p.pieces.map Prod.fst = Text.split '/' p.text.toList := by
  rw [pieces]
  cases hsplit : Text.split '/' p.text.toList with
  | nil => rfl
  | cons first rest => simp [Function.comp_def]

/-- What a piece can be: the first one, or one after it. -/
lemma eq_of_mem_pieces (h : (piece, some c) ∈ p.pieces) :
    Component.ofFirstPiece? p.isAbsolute piece = some c ∨ Component.ofPiece? piece = some c := by
  rw [pieces] at h
  cases hsplit : Text.split '/' p.text.toList with
  | nil => simp [hsplit] at h
  | cons first rest =>
      simp only [hsplit, List.mem_cons, List.mem_map, Prod.mk.injEq] at h
      rcases h with ⟨rfl, hfirst⟩ | ⟨other, -, rfl, hpiece⟩
      · exact .inl hfirst.symm
      · exact .inr hpiece

/-- A piece without a text can only be the root. -/
lemma eq_root_of_mem_pieces (h : ([], some c) ∈ p.pieces) : c = .root := by
  rcases eq_of_mem_pieces h with hfirst | hpiece
  · rw [Component.ofFirstPiece?, if_pos rfl] at hfirst
    split_ifs at hfirst
    exact (Option.some.inj hfirst).symm
  · simp [Component.ofPiece?] at hpiece

/-- The root is the first piece of an absolute path, and has no text. -/
lemma of_root_mem_pieces (h : (piece, some .root) ∈ p.pieces) :
    piece = [] ∧ p.isAbsolute = true := by
  have hnot : Component.ofPiece? piece ≠ some .root := by
    rw [Component.ofPiece?]
    split_ifs <;> simp
  have hfirst := (eq_of_mem_pieces h).resolve_right hnot
  rw [Component.ofFirstPiece?] at hfirst
  split_ifs at hfirst with hempty habsolute _
  · exact ⟨hempty, habsolute⟩
  · cases hfirst
  · exact absurd hfirst hnot

lemma isAbsolute_of_root_mem (h : .root ∈ p.components) : p.isAbsolute = true := by
  rw [components, List.mem_filterMap] at h
  obtain ⟨⟨piece, _⟩, hpiece, rfl⟩ := h
  exact (of_root_mem_pieces hpiece).2

lemma trimPieces_isPrefix (ps : List Piece) : trimPieces ps <+: ps := by
  rw [trimPieces, ← List.reverse_suffix, List.reverse_reverse]
  exact List.dropWhile_suffix _

/-- An absolute path is one with a slash before anything else. -/
lemma isAbsolute_iff_of_split {first : List Char} {rest : List (List Char)}
    (h : Text.split '/' p.text.toList = first :: rest) :
    p.isAbsolute = true ↔ first = [] ∧ rest ≠ [] := by
  have hfirst : first ∈ Text.split '/' p.text.toList := by
    rw [h]
    exact List.mem_cons_self
  have hslash : '/' ∉ first := Text.not_mem_of_mem_split hfirst
  have htext := Text.join_split '/' p.text.toList
  rw [h] at htext
  rw [isAbsolute, ← htext, beq_iff_eq]
  cases rest with
  | nil =>
      rw [Text.join]
      simp only [ne_eq, not_true_eq_false, and_false, iff_false]
      exact fun hhead => hslash (List.mem_of_head? hhead)
  | cons second rest =>
      cases first with
      | nil => simp [Text.join]
      | cons d first => simpa [Text.join] using fun heq => hslash (by simp [heq])

/-- A piece as it stands after a slash. -/
def Inner (x : Piece) : Prop := x.2 = Component.ofPiece? x.1 ∧ '/' ∉ x.1

lemma inner_of_mem_tail {x : Piece} (h : x ∈ p.pieces.tail) : Inner x := by
  have hmem : x.1 ∈ Text.split '/' p.text.toList := by
    rw [← map_fst_pieces]
    exact List.mem_map_of_mem (List.mem_of_mem_tail h)
  refine ⟨?_, Text.not_mem_of_mem_split hmem⟩
  rw [pieces] at h
  cases hsplit : Text.split '/' p.text.toList with
  | nil => simp [hsplit] at h
  | cons first rest =>
      simp only [hsplit, List.tail_cons, List.mem_map] at h
      obtain ⟨piece, -, rfl⟩ := h
      rfl

lemma filterMap_dropWhile (ps : List Piece) :
    (ps.dropWhile (·.2.isNone)).filterMap Prod.snd = ps.filterMap Prod.snd := by
  induction ps with
  | nil => rfl
  | cons x ps ih =>
      obtain ⟨piece, _ | c⟩ := x
      · simpa using ih
      · simp

lemma filterMap_trimPieces (ps : List Piece) :
    (trimPieces ps).filterMap Prod.snd = ps.filterMap Prod.snd := by
  rw [trimPieces, List.filterMap_reverse, filterMap_dropWhile, List.filterMap_reverse,
    List.reverse_reverse]

/-- What is left begins with a step. -/
lemma snd_ne_none_of_mem_head? (ps : List Piece) {x : Piece}
    (hx : x ∈ (ps.dropWhile (·.2.isNone)).head?) : x.2 ≠ none := by
  intro hnone
  have hhead := List.head?_dropWhile_not (fun x : Piece => x.2.isNone) ps
  rw [Option.mem_def.1 hx] at hhead
  simp [hnone] at hhead

/-- What stands before all else is read like what stands after a slash, unless it is the root or `.`. -/
lemma ofFirstPiece?_of_ofPiece? (absolute : Bool) (h : Component.ofPiece? piece = some c) :
    Component.ofFirstPiece? absolute piece = some c := by
  have hplain : ¬(piece = [] ∨ piece = ['.']) := by
    intro hnone
    rw [Component.ofPiece?, if_pos hnone] at h
    cases h
  rw [not_or] at hplain
  rw [Component.ofFirstPiece?, if_neg hplain.1, if_neg hplain.2, h]

/-- Pieces from inside a path make a path with their steps, if the first one is a step. -/
lemma components_ofPieces (hinner : ∀ x ∈ ps, Inner x) (hfirst : ∀ x ∈ ps.head?, x.2 ≠ none) :
    (ofPieces ps).components = ps.filterMap Prod.snd := by
  have hroot : ps.map Prod.snd ≠ [some .root] := by
    intro hroot
    obtain ⟨x, hx, hxroot⟩ := List.mem_map.1 (hroot ▸ List.mem_singleton_self (some Component.root))
    rw [(hinner x hx).1, Component.ofPiece?] at hxroot
    split_ifs at hxroot <;> simp at hxroot
  rw [ofPieces, if_neg hroot]
  cases ps with
  | nil => rfl
  | cons x ps =>
      have hslash : ∀ piece ∈ (x :: ps).map Prod.fst, '/' ∉ piece := by
        rintro _ hpiece
        obtain ⟨y, hy, rfl⟩ := List.mem_map.1 hpiece
        exact (hinner y hy).2
      have hsplit : Text.split '/' (Path.mk (String.ofList
          (Text.join ['/'] ((x :: ps).map Prod.fst)))).text.toList = x.1 :: ps.map Prod.fst := by
        rw [String.toList_ofList]
        exact Text.split_join (List.cons_ne_nil _ _) hslash
      obtain ⟨c, hc⟩ := Option.ne_none_iff_exists'.1 (hfirst x rfl)
      have hx := (hinner x List.mem_cons_self).1
      have hrest : (ps.map Prod.fst).filterMap Component.ofPiece? = ps.filterMap Prod.snd := by
        rw [List.filterMap_map]
        exact List.filterMap_congr fun y hy => (hinner y (List.mem_cons_of_mem _ hy)).1.symm
      rw [components_of_split hsplit, ofFirstPiece?_of_ofPiece? _ (hx.symm.trans hc), hrest]
      simp [hc]

/-! ## Below a directory -/

lemma exists_of_dropPieces {steps : List Component} {rest : List Piece}
    (h : dropPieces steps ps = some rest) :
    ∃ front, ps = front ++ rest ∧ front.filterMap Prod.snd = steps := by
  fun_induction dropPieces steps ps with
  | case1 ps => exact ⟨[], by simpa using h, rfl⟩
  | case2 => cases h
  | case3 steps piece ps hne ih =>
      obtain ⟨front, rfl, hfront⟩ := ih h
      exact ⟨(piece, none) :: front, rfl, by simpa using hfront⟩
  | case4 steps piece c ps ih =>
      obtain ⟨front, rfl, hfront⟩ := ih h
      exact ⟨(piece, some c) :: front, rfl, by simpa using hfront⟩
  | case5 => cases h

lemma isSome_dropPieces {steps more : List Component}
    (h : ps.filterMap Prod.snd = steps ++ more) : (dropPieces steps ps).isSome = true := by
  fun_induction dropPieces steps ps with
  | case1 => rfl
  | case2 => simp at h
  | case3 steps hne piece ps ih => exact ih (by simpa using h)
  | case4 c steps piece ps ih => exact ih (by simpa using h)
  | case5 c steps piece d ps hne =>
      simp only [List.filterMap_cons, List.cons_append] at h
      exact absurd (List.cons.inj h).1.symm hne

/-- What is below a directory has the steps of the directory before its own. -/
lemma components_of_relativeTo? (hbase : base.components ≠ []) (h : base.relativeTo? p = some rel) :
    p.components = base.components ++ rel.components := by
  rw [relativeTo?, if_neg hbase, Option.map_eq_some_iff] at h
  obtain ⟨rest, hrest, rfl⟩ := h
  obtain ⟨front, hfront, hsteps⟩ := exists_of_dropPieces hrest
  have hinner : ∀ x ∈ rest, Inner x := by
    intro x hx
    cases front with
    | nil => exact absurd hsteps.symm hbase
    | cons y front =>
        refine inner_of_mem_tail (p := p) ?_
        rw [hfront]
        exact List.mem_append_right front hx
  have htrim := trimPieces_isPrefix (rest.dropWhile (·.2.isNone))
  rw [components_ofPieces, filterMap_trimPieces, filterMap_dropWhile, components, hfront,
    List.filterMap_append, hsteps]
  · exact fun x hx => hinner x ((List.dropWhile_sublist _).subset (htrim.subset hx))
  · intro x hx
    have hone := (List.singleton_prefix_iff_head?_eq_some.2 hx).trans htrim
    exact snd_ne_none_of_mem_head? rest (List.singleton_prefix_iff_head?_eq_some.1 hone)

lemma exists_relativeTo? {more : List Component} (hbase : base.components ≠ [])
    (h : p.components = base.components ++ more) :
    ∃ rel, base.relativeTo? p = some rel ∧ rel.components = more := by
  have hsome : (base.relativeTo? p).isSome = true := by
    rw [relativeTo?, if_neg hbase, Option.isSome_map]
    exact isSome_dropPieces h
  obtain ⟨rel, hrel⟩ := Option.isSome_iff_exists.1 hsome
  exact ⟨rel, hrel, List.append_cancel_left ((components_of_relativeTo? hbase hrel).symm.trans h)⟩

/-- Without the pieces at its end that are no steps, a path has the same steps. -/
lemma components_trim (p : Path) : (ofPieces (trimPieces p.pieces)).components = p.components := by
  have hsteps : (trimPieces p.pieces).filterMap Prod.snd = p.components := filterMap_trimPieces _
  obtain ⟨back, hback⟩ := trimPieces_isPrefix p.pieces
  rw [ofPieces]
  split_ifs with hroot
  · have hslash : components ⟨"/"⟩ = ([some Component.root] : List (Option Component)).filterMap id := by
      decide
    rw [hslash, ← hsteps, ← hroot, List.filterMap_map]
    rfl
  cases htrim : trimPieces p.pieces with
  | nil =>
      rw [htrim] at hsteps
      exact hsteps
  | cons x rest =>
      rw [htrim, List.cons_append] at hback
      rw [htrim] at hsteps hroot
      have hpieces := map_fst_pieces p
      rw [← hback, List.map_cons] at hpieces
      have hx : x.2 = Component.ofFirstPiece? p.isAbsolute x.1 := by
        rw [pieces, ← hpieces] at hback
        exact congrArg Prod.snd (List.cons.inj hback).1
      have hrest : (rest.map Prod.fst).filterMap Component.ofPiece? = rest.filterMap Prod.snd := by
        rw [List.filterMap_map]
        refine List.filterMap_congr fun y hy => (inner_of_mem_tail (p := p) ?_).1.symm
        rw [← hback]
        exact List.mem_append_left _ hy
      have hslash : ∀ piece ∈ (x :: rest).map Prod.fst, '/' ∉ piece := by
        intro piece hpiece
        have hmem : piece ∈ Text.split '/' p.text.toList := by
          rw [← hpieces, ← List.map_cons, ← List.cons_append, List.map_append]
          exact List.mem_append_left _ hpiece
        exact Text.not_mem_of_mem_split hmem
      have hsplit : Text.split '/' (Path.mk (String.ofList
          (Text.join ['/'] ((x :: rest).map Prod.fst)))).text.toList = x.1 :: rest.map Prod.fst := by
        rw [String.toList_ofList]
        exact Text.split_join (List.cons_ne_nil _ _) hslash
      have hp := isAbsolute_iff_of_split hpieces.symm
      have hnew := isAbsolute_iff_of_split hsplit
      -- only an empty first piece is read differently in absolute paths
      have hfirst : Component.ofFirstPiece? (Path.mk (String.ofList
          (Text.join ['/'] ((x :: rest).map Prod.fst)))).isAbsolute x.1 = x.2 := by
        rw [hx]
        by_cases hempty : x.1 = []
        · congr 1
          rw [Bool.eq_iff_iff, hp, hnew]
          cases rest with
          | cons => simp
          | nil =>
              refine iff_of_false (by simp) fun habsolute => hroot ?_
              rw [List.map_singleton, hx, hp.2 habsolute, hempty]
              rfl
        · rw [Component.ofFirstPiece?, Component.ofFirstPiece?, if_neg hempty, if_neg hempty]
      rw [components_of_split hsplit, hfirst, hrest, ← hsteps, List.filterMap_cons]
      cases x.2 <;> rfl

/-- A path is below a directory if it begins with the steps of that. -/
lemma map_components_relativeTo? (base p : Path) : (base.relativeTo? p).map components
    = if base.components <+: p.components then some (p.components.drop base.components.length)
      else none := by
  by_cases hbase : base.components = []
  · rw [relativeTo?, if_pos hbase, Option.map_some, components_trim, hbase]
    rfl
  split_ifs with hbegins
  · obtain ⟨more, hmore⟩ := hbegins
    obtain ⟨rel, hrel, hsteps⟩ := exists_relativeTo? hbase hmore.symm
    rw [hrel, Option.map_some, hsteps, ← hmore, List.drop_left]
  · cases hrel : base.relativeTo? p with
    | none => rfl
    | some rel => exact absurd ⟨_, (components_of_relativeTo? hbase hrel).symm⟩ hbegins

/-! ## Normal forms -/

/-- The component can be read back from its text where it stands after a slash. -/
def Legible (c : Component) : Prop :=
  Component.ofPiece? c.text.toList = some c ∧ '/' ∉ c.text.toList

lemma legible_parent : Legible .parent := by constructor <;> decide

lemma legible_name {t : String} (h : IsName t) : Legible (.name t) := ⟨ofPiece?_name h, h.2.2.2⟩

/-- Only the first step of a normal form can be the root. -/
lemma NormalForm.legible {steps : List Component} (h : NormalForm (c :: steps)) :
    (c = .root ∨ Legible c) ∧ ∀ d ∈ steps, Legible d := by
  obtain ⟨stem, names, hstem, hnames, hsteps⟩ := h
  have hlegible : ∀ d ∈ names.map Component.name, Legible d := by
    intro d hd
    obtain ⟨t, ht, rfl⟩ := List.mem_map.1 hd
    exact legible_name (hnames t ht)
  cases hstem with
  | nothing =>
      rw [List.nil_append] at hsteps
      rw [← hsteps] at hlegible
      exact (List.forall_mem_cons.1 hlegible).imp_left .inr
  | above =>
      obtain ⟨rfl, rfl⟩ := List.cons.inj hsteps
      exact ⟨.inr legible_parent, hlegible⟩
  | root =>
      obtain ⟨rfl, rfl⟩ := List.cons.inj hsteps
      exact ⟨.inl rfl, hlegible⟩
  | aboveRoot =>
      obtain ⟨rfl, rfl⟩ := List.cons.inj hsteps
      exact ⟨.inl rfl, List.forall_mem_cons.2 ⟨legible_parent, hlegible⟩⟩

/-- What stands below something else in a relative normal form are names. -/
lemma NormalForm.names {steps : List Component} (h : NormalForm (c :: steps)) (hc : c ≠ .root) :
    ∃ names : List String, (∀ t ∈ names, IsName t) ∧ steps = names.map .name := by
  obtain ⟨stem, names, hstem, hnames, hsteps⟩ := h
  cases hstem with
  | nothing =>
      cases names with
      | nil => cases hsteps
      | cons t names =>
          obtain ⟨rfl, rfl⟩ := List.cons.inj hsteps
          exact ⟨names, (List.forall_mem_cons.1 hnames).2, rfl⟩
  | above =>
      obtain ⟨rfl, rfl⟩ := List.cons.inj hsteps
      exact ⟨names, hnames, rfl⟩
  | root | aboveRoot => exact absurd (List.cons.inj hsteps).1 hc

lemma NormalForm.append_names {steps : List Component} (h : NormalForm steps) {names : List String}
    (hnames : ∀ t ∈ names, IsName t) : NormalForm (steps ++ names.map .name) := by
  obtain ⟨stem, before, hstem, hbefore, rfl⟩ := h
  refine ⟨stem, before ++ names, hstem, fun t ht => ?_, by simp⟩
  exact (List.mem_append.1 ht).elim (hbefore t) (hnames t)

lemma Stem.of_isPrefix {stem first : List Component} (h : Stem stem) (hbegins : first <+: stem) :
    Stem first := by
  cases h with
  | nothing => exact List.prefix_nil.1 hbegins ▸ .nothing
  | above =>
      rcases List.prefix_cons_iff.1 hbegins with rfl | ⟨rest, rfl, hrest⟩
      · exact .nothing
      · exact List.prefix_nil.1 hrest ▸ .above
  | root =>
      rcases List.prefix_cons_iff.1 hbegins with rfl | ⟨rest, rfl, hrest⟩
      · exact .nothing
      · exact List.prefix_nil.1 hrest ▸ .root
  | aboveRoot =>
      rcases List.prefix_cons_iff.1 hbegins with rfl | ⟨rest, rfl, hrest⟩
      · exact .nothing
      rcases List.prefix_cons_iff.1 hrest with rfl | ⟨more, rfl, hmore⟩
      · exact .root
      · exact List.prefix_nil.1 hmore ▸ .aboveRoot

/-- The first steps of a normal form are one. -/
lemma NormalForm.of_isPrefix {steps first : List Component} (h : NormalForm steps)
    (hbegins : first <+: steps) : NormalForm first := by
  obtain ⟨stem, names, hstem, hnames, rfl⟩ := h
  rcases List.prefix_or_prefix_of_prefix hbegins (List.prefix_append stem _) with hshort | hlong
  · exact ⟨first, [], hstem.of_isPrefix hshort, by simp, by simp⟩
  · obtain ⟨rest, rfl⟩ := hlong
    obtain ⟨front, hfront, rfl⟩ :=
      List.prefix_map_iff.1 ((List.prefix_append_right_inj stem).1 hbegins)
    exact ⟨stem, front, hstem, fun t ht => hnames t (hfront.subset ht), rfl⟩

/-- A path in normal form is the text of its steps. -/
lemma normal_iff : p.normalize = p ↔ NormalForm p.components ∧ ofComponents p.components = p := by
  constructor
  · intro hp
    have hnormal := normalSteps_normal p
    have hsteps : p.components = normalSteps p.components := by
      conv_lhs => rw [← hp, normalize, components_ofComponents hnormal]
    rw [hsteps]
    exact ⟨hnormal, hp⟩
  · rintro ⟨hnormal, hp⟩
    rw [normalize, normalSteps_of_normal hnormal, hp]

lemma render_of_ne_nil {steps : List Component} (h : steps ≠ [] ∨ c ≠ .root) :
    render (c :: steps) = "/".intercalate ((c :: steps).map Component.text) := by
  by_cases hc : c = .root
  · subst hc
    cases steps with
    | nil => exact absurd rfl (h.resolve_right (absurd rfl))
    | cons d steps => simp [render, Component.text, String.intercalate_cons_cons]
  · cases c with
    | root => exact absurd rfl hc
    | current | parent | name => rfl

/-- A step as the piece that it is written as. -/
def pieceOf (c : Component) : Piece := (c.text.toList, some c)

/-- In a normal form, every piece is a step. -/
lemma pieces_of_normal {steps : List Component} (hp : p.normalize = p)
    (hsteps : p.components = c :: steps) (hne : steps ≠ []) :
    p.pieces = (c :: steps).map pieceOf := by
  obtain ⟨hnormal, htext⟩ := normal_iff.1 hp
  rw [hsteps] at hnormal htext
  obtain ⟨hfirst, hrest⟩ := hnormal.legible
  have hslash : ∀ t ∈ (c :: steps).map Component.text, '/' ∉ t.toList := by
    rw [List.map_cons, List.forall_mem_cons, List.forall_mem_map]
    refine ⟨?_, fun d hd => (hrest d hd).2⟩
    rcases hfirst with rfl | hc
    · simp [Component.text]
    · exact hc.2
  have hsplit : Text.split '/' p.text.toList
      = c.text.toList :: steps.map fun d => d.text.toList := by
    rw [← htext, ofComponents, render_of_ne_nil (.inl hne), split_render (by simp) hslash]
    simp
  have hhead : Component.ofFirstPiece? p.isAbsolute c.text.toList = some c := by
    rcases hfirst with rfl | hc
    · have habsolute := (isAbsolute_iff_of_split hsplit).2 ⟨rfl, by simpa using hne⟩
      rw [habsolute]
      rfl
    · exact ofFirstPiece?_of_ofPiece? _ hc.1
  rw [pieces, hsplit]
  simp only [hhead, List.map_cons, List.map_map, pieceOf, List.cons.injEq, true_and]
  refine List.map_congr_left fun d hd => ?_
  simp [pieceOf, (hrest d hd).1]

lemma dropPieces_pieceOf (steps rest : List Component) :
    dropPieces steps ((steps ++ rest).map pieceOf) = some (rest.map pieceOf) := by
  induction steps with
  | nil => rw [dropPieces, List.nil_append]
  | cons c steps ih => rwa [List.cons_append, List.map_cons, pieceOf, dropPieces, if_pos rfl]

lemma dropWhile_pieceOf (steps : List Component) :
    (steps.map pieceOf).dropWhile (fun x => x.2.isNone) = steps.map pieceOf := by
  cases steps with
  | nil => rfl
  | cons c steps => rfl

lemma trimPieces_pieceOf (steps : List Component) :
    trimPieces (steps.map pieceOf) = steps.map pieceOf := by
  rw [trimPieces, ← List.map_reverse, dropWhile_pieceOf, List.map_reverse, List.reverse_reverse]

lemma legible_of_normal {rest : List Component} (hp : p.normalize = p) (hbase : base.components ≠ [])
    (h : p.components = base.components ++ rest) : ∀ d ∈ rest, Legible d := by
  obtain ⟨c, steps, hsteps⟩ := List.exists_cons_of_ne_nil hbase
  have hnormal := (normal_iff.1 hp).1
  rw [h, hsteps, List.cons_append] at hnormal
  exact fun d hd => hnormal.legible.2 d (List.mem_append_right steps hd)

/-- Seen from a directory above it, a path in normal form is the text of the steps that remain. -/
lemma relativeTo?_of_normal {rest : List Component} (hp : p.normalize = p)
    (hbase : base.components ≠ []) (hrest : rest ≠ []) (h : p.components = base.components ++ rest) :
    base.relativeTo? p = some ⟨"/".intercalate (rest.map Component.text)⟩ := by
  obtain ⟨c, steps, hsteps⟩ := List.exists_cons_of_ne_nil hbase
  have hlegible := legible_of_normal hp hbase h
  have hroot : (rest.map pieceOf).map Prod.snd ≠ [some .root] := by
    intro hroot
    obtain ⟨x, hx, hxroot⟩ := List.mem_map.1 (hroot ▸ List.mem_singleton_self (some Component.root))
    obtain ⟨d, hd, rfl⟩ := List.mem_map.1 hx
    cases hxroot
    cases (hlegible _ hd).1
  have hpieces : p.pieces = (base.components ++ rest).map pieceOf := by
    rw [hsteps]
    exact pieces_of_normal hp (h.trans (congrArg (· ++ rest) hsteps)) (by simp [hrest])
  rw [relativeTo?, if_neg hbase, hpieces, dropPieces_pieceOf, Option.map_some, dropWhile_pieceOf,
    trimPieces_pieceOf, ofPieces, if_neg hroot]
  congr 2
  rw [← String.toList_inj, String.toList_ofList, String.toList_intercalate, Text.intercalate_eq_join]
  simp [pieceOf, Function.comp_def]

/-- A relative path in normal form is the text of its steps. -/
lemma text_of_normal (hp : p.normalize = p) (hrelative : p.isAbsolute = false)
    (hne : p.components ≠ []) : p.text = "/".intercalate (p.components.map Component.text) := by
  obtain ⟨c, steps, hsteps⟩ := List.exists_cons_of_ne_nil hne
  have hroot : c ≠ .root := by
    rintro rfl
    have hmem : Component.root ∈ p.components := hsteps ▸ List.mem_cons_self
    rw [isAbsolute_of_root_mem hmem] at hrelative
    cases hrelative
  have htext := (normal_iff.1 hp).2
  rw [hsteps] at htext
  rw [hsteps, ← render_of_ne_nil (.inr hroot), ← htext]
  rfl

/-- The text of steps with a slash between each two. -/
def letters (steps : List Component) : List Char :=
  Text.join ['/'] (steps.map fun c => c.text.toList)

lemma toList_intercalate (steps : List Component) :
    ("/".intercalate (steps.map Component.text)).toList = letters steps := by
  rw [letters, String.toList_intercalate, Text.intercalate_eq_join, List.map_map]
  rfl

/-- Only the first step of a path can be the root. -/
lemma root_notMem {front rest : List Component} (hne : front ≠ [])
    (h : p.components = front ++ rest) : .root ∉ rest := by
  obtain ⟨first, more, hfirst, hmore, heq⟩ := components_eq p
  have hroot : .root ∉ more := fun hmem => nomatch hmore _ hmem
  obtain ⟨c, front, rfl⟩ := List.exists_cons_of_ne_nil hne
  rw [heq] at h
  intro hmem
  refine hroot ?_
  rcases hfirst with rfl | rfl
  · rw [List.nil_append] at h
    rw [h]
    exact List.mem_append_right _ hmem
  · have hmore : more = front ++ rest := (List.cons.inj h).2
    rw [hmore]
    exact List.mem_append_right _ hmem

lemma noSlash_of_mem (h : c ∈ p.components) : '/' ∉ c.text.toList := by
  obtain ⟨first, rest, hfirst, hrest, heq⟩ := components_eq p
  rw [heq] at h
  rcases List.mem_append.1 h with h | h
  · rcases hfirst with rfl | rfl
    · cases h
    · rw [List.mem_singleton.1 h]
      decide
  · cases hrest c h with
    | current | parent => decide
    | name hname => exact hname.2.2.2

/-- A step that has the text of a legible one is that one. -/
lemma eq_of_text_eq {d : Component} (h : c ∈ p.components) (hroot : c ≠ .root) (hd : Legible d)
    (htext : c.text.toList = d.text.toList) : c = d := by
  obtain ⟨first, rest, hfirst, hrest, heq⟩ := components_eq p
  rw [heq] at h
  have hread := hd.1
  rw [← htext] at hread
  rcases List.mem_append.1 h with h | h
  · rcases hfirst with rfl | rfl
    · cases h
    · exact absurd (List.mem_singleton.1 h) hroot
  · cases hrest c h with
    | current => cases hread
    | parent => exact Option.some.inj hread
    | name hname =>
        rw [Component.text, ofPiece?_name hname] at hread
        exact Option.some.inj hread

/-- Steps are the first ones of others if their texts are, and the texts tell them apart. -/
lemma isPrefix_of_map {written seen : List Component}
    (hsame : ∀ c ∈ written, ∀ d ∈ seen, c.text.toList = d.text.toList → c = d)
    (h : written.map (fun c => c.text.toList) <+: seen.map fun c => c.text.toList) :
    written <+: seen := by
  induction written generalizing seen with
  | nil => exact List.nil_prefix
  | cons c written ih =>
      cases seen with
      | nil => simp at h
      | cons d seen =>
          rw [List.map_cons, List.map_cons, List.cons_prefix_cons] at h
          rw [List.cons_prefix_cons]
          exact ⟨hsame c List.mem_cons_self d List.mem_cons_self h.1,
            ih (fun c hc d hd => hsame c (List.mem_cons_of_mem _ hc) d (List.mem_cons_of_mem _ hd)) h.2⟩

/-! ## Seen from a directory -/

lemma components_absolute (h : p.isAbsolute = true) :
    p.components = .root :: (Text.split '/' p.text.toList).filterMap Component.ofPiece? := by
  cases hsplit : Text.split '/' p.text.toList with
  | nil => exact absurd hsplit (Text.split_ne_nil _ _)
  | cons first rest =>
      obtain rfl := ((isAbsolute_iff_of_split hsplit).1 h).1
      rw [components_of_split hsplit, h]
      rfl

lemma root_mem_components_iff : .root ∈ p.components ↔ p.isAbsolute = true := by
  refine ⟨isAbsolute_of_root_mem, fun h => ?_⟩
  rw [components_absolute h]
  exact List.mem_cons_self

/-- Without a `.` in front, a relative path is what it is after a slash. -/
lemma components_eq_or (h : p.isAbsolute = false) :
    p.components = (Text.split '/' p.text.toList).filterMap Component.ofPiece?
      ∨ p.components = .current :: (Text.split '/' p.text.toList).filterMap Component.ofPiece? := by
  cases hsplit : Text.split '/' p.text.toList with
  | nil => exact absurd hsplit (Text.split_ne_nil _ _)
  | cons first rest =>
      rw [components_of_split hsplit, h]
      by_cases hdot : first = ['.']
      · subst hdot
        exact .inr rfl
      · have hfirst : Component.ofFirstPiece? false first = Component.ofPiece? first := by
          by_cases hempty : first = []
          · rw [hempty]
            rfl
          · rw [Component.ofFirstPiece?, if_neg hempty, if_neg hdot]
        rw [hfirst]
        cases hpiece : Component.ofPiece? first <;> simp [hpiece]

lemma components_of_not_absolute (h : p.isAbsolute = false) (hcurrent : .current ∉ p.components) :
    p.components = (Text.split '/' p.text.toList).filterMap Component.ofPiece? := by
  refine (components_eq_or h).resolve_right fun heq => hcurrent ?_
  rw [heq]
  exact List.mem_cons_self

/-- A slash is put between the two, unless there is one already or nothing before it. -/
lemma toList_join (hq : q.isAbsolute = false) : (p.join q).text.toList
    = p.text.toList ++ (if p.text.toList = [] ∨ ['/'] <:+ p.text.toList then [] else ['/'])
      ++ q.text.toList := by
  have hend : (p.text.isEmpty || p.text.endsWith "/") = true
      ↔ p.text.toList = [] ∨ ['/'] <:+ p.text.toList := by
    rw [Bool.or_eq_true, Text.endsWith_iff, String.isEmpty_iff, String.toList_eq_nil_iff]
    rfl
  rw [join, if_neg (by simp [hq])]
  simp only [hend]
  split_ifs with h
  · rw [String.toList_append, List.append_nil]
  · rw [String.toList_append, String.toList_append]
    rfl

/-- A path in a directory stands after a slash. -/
lemma exists_text_join (hp : p.isAbsolute = true) (hq : q.isAbsolute = false) : ∃ before,
    (p.join q).text.toList = before ++ '/' :: q.text.toList
      ∧ (p.text.toList = before ∨ p.text.toList = before ++ ['/']) := by
  rw [toList_join hq]
  split_ifs with hend
  · rcases hend with hempty | ⟨before, hbefore⟩
    · rw [isAbsolute, hempty] at hp
      cases hp
    · refine ⟨before, ?_, .inr hbefore.symm⟩
      rw [← hbefore, List.append_nil, List.append_assoc]
      rfl
  · refine ⟨p.text.toList, ?_, .inl rfl⟩
    rw [List.append_assoc]
    rfl

/-- A path seen from a directory takes the steps of the directory and then what stands after a slash. -/
lemma components_join_eq (hp : p.isAbsolute = true) (hq : q.isAbsolute = false) :
    (p.join q).components
      = p.components ++ (Text.split '/' q.text.toList).filterMap Component.ofPiece? := by
  obtain ⟨before, htext, hbefore⟩ := exists_text_join hp hq
  have hsteps : (Text.split '/' p.text.toList).filterMap Component.ofPiece?
      = (Text.split '/' before).filterMap Component.ofPiece? := by
    rcases hbefore with hbefore | hbefore
    · rw [hbefore]
    · rw [hbefore, Text.split_append_sep, List.filterMap_append]
      exact List.append_nil _
  have habsolute : (p.join q).isAbsolute = true := by
    rw [isAbsolute] at hp ⊢
    rw [htext]
    cases before with
    | nil => rfl
    | cons d before => rcases hbefore with hbefore | hbefore <;> simpa [hbefore] using hp
  rw [components_absolute habsolute, components_absolute hp, htext, Text.split_append_sep,
    List.filterMap_append, hsteps, List.cons_append]

/-- Without a `.` in front, a path takes its own steps after those of the directory. -/
lemma components_join (hp : p.isAbsolute = true) (hq : q.isAbsolute = false)
    (hcurrent : .current ∉ q.components) :
    (p.join q).components = p.components ++ q.components := by
  rw [components_join_eq hp hq, ← components_of_not_absolute hq hcurrent]

/-! ## Strictly below a directory -/

/-- The path is strictly below the directory, step by step. -/
def Below (dir p : Path) : Prop := ∃ rest, rest ≠ [] ∧ p.components = dir.components ++ rest

variable {rest : List Component}

lemma not_legible_current : ¬Legible .current := by
  rintro ⟨h, -⟩
  cases h

/-- A relative path in normal form is legible as a whole. -/
lemma legible_of_not_absolute (hp : p.normalize = p) (hrelative : p.isAbsolute = false) :
    ∀ c ∈ p.components, Legible c := by
  cases hsteps : p.components with
  | nil => exact fun c hc => absurd hc List.not_mem_nil
  | cons c steps =>
      have hnormal := (normal_iff.1 hp).1
      rw [hsteps] at hnormal
      refine List.forall_mem_cons.2 ⟨hnormal.legible.1.resolve_left ?_, hnormal.legible.2⟩
      rintro rfl
      have hmem : .root ∈ p.components := hsteps ▸ List.mem_cons_self
      rw [isAbsolute_of_root_mem hmem] at hrelative
      cases hrelative

lemma components_of_join (hbase : base.isAbsolute = true) (hp : p.normalize = p)
    (hrelative : p.isAbsolute = false) (h : (base.join p).components = base.components ++ rest) :
    p.components = rest := by
  have hcurrent : .current ∉ p.components :=
    fun hmem => not_legible_current (legible_of_not_absolute hp hrelative _ hmem)
  rw [components_join hbase hrelative hcurrent] at h
  exact List.append_cancel_left h

lemma components_ne_nil (h : base.isAbsolute = true) : base.components ≠ [] := by
  rw [components_absolute h]
  exact List.cons_ne_nil _ _

lemma legible_of_join (hbase : base.isAbsolute = true) (hp : p.normalize = p)
    (h : (base.join p).components = base.components ++ rest) : ∀ c ∈ rest, Legible c := by
  cases habsolute : p.isAbsolute with
  | true =>
      rw [join, if_pos habsolute] at h
      exact legible_of_normal hp (components_ne_nil hbase) h
  | false =>
      rw [← components_of_join hbase hp habsolute h]
      exact legible_of_not_absolute hp habsolute

/-- Below a normal form, paths in normal form make one. -/
lemma normalForm_of_join {steps more : List Component} (hbase : base.isAbsolute = true)
    (hp : p.normalize = p) (hsteps : steps ≠ []) (hnormal : NormalForm (base.components ++ steps))
    (h : (base.join p).components = base.components ++ (steps ++ more)) :
    NormalForm (base.components ++ (steps ++ more)) := by
  cases habsolute : p.isAbsolute with
  | true =>
      rw [join, if_pos habsolute] at h
      rw [← h]
      exact (normal_iff.1 hp).1
  | false =>
      have hown := components_of_join hbase hp habsolute h
      have hlegible := legible_of_not_absolute hp habsolute
      have hform := (normal_iff.1 hp).1
      obtain ⟨c, steps, rfl⟩ := List.exists_cons_of_ne_nil hsteps
      rw [hown] at hform hlegible
      have hroot : c ≠ .root := by
        rintro rfl
        cases (hlegible _ List.mem_cons_self).1
      obtain ⟨names, hnames, heq⟩ := hform.names hroot
      obtain ⟨before, after, rfl, hbefore, rfl⟩ := List.map_eq_append_iff.1 heq.symm
      rw [← List.append_assoc]
      exact hnormal.append_names fun t ht => hnames t (List.mem_append_right _ ht)

end Rebuild.Path
