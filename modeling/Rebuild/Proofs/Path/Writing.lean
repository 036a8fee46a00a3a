import Rebuild.Proofs.Path.Relative

/-!
# Paths written step by step

A normal form can be put together as a text: a step is joined to the text, and `..` takes away what
stands above, if anything does.  `foldl_pushText_components`: the text so written is that of
`Path.normalize`.

Three things can happen at a `..`.  The empty text and the root have nothing to take away and get the
`..` joined (`pushText_parent_of_none`); every other text loses its last step, be it a name or a `..`
that was joined before (`parent?_ofComponents`).
-/

namespace Rebuild.Path

variable {p q : Path} {c : Component} {steps : List Component}

/-- One more step on a text. -/
def pushText (out : Path) : Component → Path
  | .root => out.join ⟨"/"⟩
  | .current => out
  | .parent => out.parent?.getD (out.join ⟨".."⟩)
  | .name t => out.join ⟨t⟩

/-! ## Text of steps -/

lemma eq_of_toList (h : p.text.toList = q.text.toList) : p = q := by
  cases p
  cases q
  rw [Path.mk.injEq]
  exact String.toList_inj.1 h

lemma Legible.ne_nil (h : Legible c) : c.text.toList ≠ [] := by
  intro hnil
  have hread := h.1
  rw [hnil] at hread
  cases hread

lemma Legible.ne_root (h : Legible c) : c ≠ .root := by
  rintro rfl
  exact h.ne_nil rfl

lemma Legible.isAbsolute (h : Legible c) : isAbsolute ⟨c.text⟩ = false := by
  rw [Path.isAbsolute, Bool.eq_false_iff]
  intro hhead
  exact h.2 (List.mem_of_head? (eq_of_beq hhead))

lemma letters_concat (hne : steps ≠ []) (c : Component) :
    letters (steps ++ [c]) = letters steps ++ ['/'] ++ c.text.toList := by
  rw [letters, List.map_append, Text.join_append _ (by simp) (by simpa using hne), List.append_assoc]
  rfl

/-- A text that ends in a step is not empty, and does not end in a slash. -/
lemma letters_concat_open (hc : Legible c) (steps : List Component) :
    ¬(letters (steps ++ [c]) = [] ∨ ['/'] <:+ letters (steps ++ [c])) := by
  obtain ⟨front, hfront⟩ : ∃ front, letters (steps ++ [c]) = front ++ c.text.toList := by
    by_cases hsteps : steps = []
    · exact ⟨[], by rw [hsteps]; rfl⟩
    · exact ⟨_, letters_concat hsteps c⟩
  rw [hfront, not_or]
  refine ⟨List.append_ne_nil_of_right_ne_nil _ hc.ne_nil, ?_⟩
  rintro ⟨before, hbefore⟩
  have hlast := congrArg List.getLast? hbefore
  rw [List.getLast?_concat, List.getLast?_append_of_ne_nil _ hc.ne_nil] at hlast
  exact hc.2 (List.mem_of_getLast? hlast.symm)

/-- Unless it is the root alone, a path is the text of its steps. -/
lemma toList_ofComponents (h : steps ≠ [.root]) :
    (ofComponents steps).text.toList = letters steps := by
  cases steps with
  | nil => decide
  | cons c steps =>
      rw [ofComponents, render_of_ne_nil, toList_intercalate]
      by_cases hc : c = .root
      · subst hc
        exact .inl fun hnil => h (by rw [hnil])
      · exact .inr hc

/-- The last step of a normal form is the root only if it is the only one. -/
lemma NormalForm.legible_last (h : NormalForm (steps ++ [c])) (hroot : steps ++ [c] ≠ [.root]) :
    Legible c := by
  cases steps with
  | nil => exact h.legible.1.resolve_left fun hc => hroot (by rw [hc]; rfl)
  | cons d steps => exact h.legible.2 c (by simp)

/-! ## Joining and taking away -/

/-- Joining writes one more step. -/
lemma join_ofComponents (h : NormalForm steps) (hc : Legible c) :
    (ofComponents steps).join ⟨c.text⟩ = ofComponents (steps ++ [c]) := by
  have hnew : steps ++ [c] ≠ [.root] := by
    intro heq
    have hlast := congrArg List.getLast? heq
    rw [List.getLast?_concat] at hlast
    exact hc.ne_root (Option.some.inj hlast)
  refine eq_of_toList ?_
  rw [toList_join hc.isAbsolute, toList_ofComponents hnew]
  rcases List.eq_nil_or_concat' steps with rfl | ⟨before, d, rfl⟩
  · rfl
  by_cases hroot : before ++ [d] = [.root]
  · rw [hroot]
    rfl
  · have hd := h.legible_last hroot
    rw [toList_ofComponents hroot, if_neg (letters_concat_open hd before),
      letters_concat (List.append_ne_nil_of_right_ne_nil before (List.cons_ne_nil d [])) c]

lemma normalize_ofComponents (h : NormalForm steps) :
    (ofComponents steps).normalize = ofComponents steps := by
  rw [normalize, components_ofComponents h, normalSteps_of_normal h]

lemma ofPieces_pieceOf (steps : List Component) :
    ofPieces (steps.map pieceOf) = ofComponents steps := by
  by_cases hroot : steps = [.root]
  · subst hroot
    rfl
  · refine eq_of_toList ?_
    have hsnd : (steps.map pieceOf).map Prod.snd = steps.map some := by
      rw [List.map_map]
      rfl
    rw [ofPieces, if_neg, String.toList_ofList, toList_ofComponents hroot, letters, List.map_map]
    · rfl
    · rw [hsnd]
      exact fun heq => hroot (List.map_injective_iff.2 (fun _ _ => Option.some.inj) heq)

lemma pieces_ofComponents (h : NormalForm (steps ++ [c])) (hroot : steps ++ [c] ≠ [.root]) :
    (ofComponents (steps ++ [c])).pieces = (steps ++ [c]).map pieceOf := by
  have hc := h.legible_last hroot
  cases steps with
  | nil =>
      have hsplit : Text.split '/' (ofComponents [c]).text.toList = [c.text.toList] := by
        rw [← List.nil_append [c], toList_ofComponents hroot]
        exact Text.split_of_not_mem hc.2
      rw [List.nil_append, pieces, hsplit]
      simp only [ofFirstPiece?_of_ofPiece? _ hc.1]
      rfl
  | cons d steps =>
      exact pieces_of_normal (normalize_ofComponents h) (components_ofComponents h) (by simp)

/-- What stands above a step. -/
lemma parent?_ofComponents (h : NormalForm (steps ++ [c])) (hroot : steps ++ [c] ≠ [.root]) :
    (ofComponents (steps ++ [c])).parent? = some (ofComponents steps) := by
  have hc := (h.legible_last hroot).ne_root
  rw [parent?, pieces_ofComponents h hroot, trimPieces_pieceOf, List.map_append, List.reverse_append]
  have habove : ofPieces (trimPieces (steps.map pieceOf).reverse.reverse) = ofComponents steps := by
    rw [List.reverse_reverse, trimPieces_pieceOf, ofPieces_pieceOf]
  rw [← habove]
  cases c with
  | root => exact absurd rfl hc
  | current | parent | name => rfl

/-! ## Writing -/

/-- Whatever stands last is taken away, but for the root alone. -/
lemma pushNormal_cons_parent {done : List Component} (h : c :: done ≠ [.root]) :
    pushNormal (c :: done) .parent = done := by
  cases c with
  | root =>
      cases done with
      | nil => exact absurd rfl h
      | cons d done => rfl
  | current | parent | name => rfl

/-- Above the root and above nothing there is nothing. -/
lemma pushText_parent_of_none (h : NormalForm steps) (hnone : (ofComponents steps).parent? = none) :
    pushText (ofComponents steps) .parent = ofComponents (steps ++ [.parent]) := by
  rw [pushText, hnone, ← join_ofComponents h legible_parent]
  rfl

lemma pushText_ofComponents {done : List Component} (h : NormalForm done.reverse) (hc : Follows c) :
    pushText (ofComponents done.reverse) c = ofComponents (pushNormal done c).reverse := by
  cases hc with
  | current => rfl
  | @name t ht =>
      have hpush : pushNormal done (.name t) = .name t :: done := rfl
      rw [hpush, List.reverse_cons, ← join_ofComponents h (legible_name ht)]
      rfl
  | parent =>
      cases done with
      | nil => exact pushText_parent_of_none h (by decide)
      | cons d done =>
          by_cases hroot : d :: done = [.root]
          · rw [hroot] at h ⊢
            exact pushText_parent_of_none h (by decide)
          · have hlast : done.reverse ++ [d] ≠ [.root] := by
              rw [← List.reverse_cons]
              exact fun heq => hroot (List.reverse_injective heq)
            rw [List.reverse_cons] at h ⊢
            rw [pushText, parent?_ofComponents h hlast, pushNormal_cons_parent hroot]
            rfl

lemma foldl_pushText {done : List Component} (hsteps : ∀ c ∈ steps, Follows c)
    (h : NormalForm done.reverse) :
    steps.foldl pushText (ofComponents done.reverse)
      = ofComponents (steps.foldl pushNormal done).reverse := by
  induction steps generalizing done with
  | nil => rfl
  | cons c steps ih =>
      have hc := hsteps c List.mem_cons_self
      rw [List.foldl_cons, pushText_ofComponents h hc]
      exact ih (fun d hd => hsteps d (List.mem_cons_of_mem _ hd)) (pushNormal_normal hc h)

/-- Text is put together as steps are. -/
lemma foldl_pushText_components (p : Path) : p.components.foldl pushText ⟨""⟩ = p.normalize := by
  obtain ⟨first, rest, hfirst, hrest, hsteps⟩ := components_eq p
  rw [normalize, normalSteps, hsteps, List.foldl_append, List.foldl_append]
  rcases hfirst with rfl | rfl
  · have hnothing : NormalForm (List.reverse []) := ⟨[], [], .nothing, by simp, rfl⟩
    exact foldl_pushText hrest hnothing
  · have hroot : NormalForm (List.reverse [.root]) := ⟨[.root], [], .root, by simp, rfl⟩
    exact foldl_pushText hrest hroot

end Rebuild.Path
