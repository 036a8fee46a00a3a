import Mathlib.Logic.Relation
import Rebuild.Proofs.Compilation.Division

/-!
# Which hits are demoted

`Division.demote` turns hits into misses round by round, and a round looks only at what the misses are
by then.  Of these rounds nothing shows in the result: a hit is demoted exactly if needs lead from it
over hits to a miss of the division that was given (`Drawn`).

* **One round.**  `drawn_of_needsAny`: what a round demotes is drawn.  `drawn_kept_iff`: for the hits
  that it keeps, the next round asks the same question.
* **Endpoint.**  `demote_exact`, for every graph and every division.
-/

namespace Rebuild.Division

open Relation

variable {graph : Graph} {hits hits' : List Hit} {misses misses' : List Path} {h : Hit} {p q : Path}

/-! ## Chains -/

/-- The hit `p` needs `q`.  As needs do not depend on spellings, the files on the way can be taken as the
hits spell them. -/
def HitNeeds (graph : Graph) (hits : List Hit) (p q : Path) : Prop :=
  p ∈ hits.map Prod.fst ∧ graph.Needs p q

/-- Needs lead from the hit `p` over hits to a miss. -/
def Drawn (graph : Graph) (hits : List Hit) (misses : List Path) (p : Path) : Prop :=
  ∃ q ∈ misses, TransGen (HitNeeds graph hits) p q

/-- Only the members of the two lists matter, not their order. -/
lemma drawn_congr (hhits : ∀ x, x ∈ hits' ↔ x ∈ hits) (hmisses : ∀ x, x ∈ misses' ↔ x ∈ misses) :
    Drawn graph hits' misses' p ↔ Drawn graph hits misses p := by
  have hneeds : HitNeeds graph hits' = HitNeeds graph hits := by
    funext x y
    simp only [HitNeeds, List.mem_map, hhits]
  simp only [Drawn, hneeds, hmisses]

/-! ## One round -/

/-- The hits that stay hits in a round. -/
def kept (graph : Graph) (hits : List Hit) (misses : List Path) : List Hit :=
  hits.filter fun h => !needsAny graph (PathSet.ofPaths misses) h

/-- The hits that become misses in a round. -/
def demoted (graph : Graph) (hits : List Hit) (misses : List Path) : List Hit :=
  hits.filter (needsAny graph (PathSet.ofPaths misses))

lemma perm_demoted_kept (graph : Graph) (hits : List Hit) (misses : List Path) :
    (demoted graph hits misses ++ kept graph hits misses).Perm hits :=
  List.filter_append_perm _ hits

/-- What a round demotes is drawn. -/
lemma drawn_of_needsAny (hh : h ∈ hits) (hneeds : needsAny graph (PathSet.ofPaths misses) h = true) :
    Drawn graph hits misses h.1 := by
  obtain ⟨q, hq, hneeds⟩ := needsAny_iff.1 hneeds
  exact ⟨q, hq, .single ⟨List.mem_map.2 ⟨h, hh, rfl⟩, hneeds⟩⟩

/-- Where a round demotes nothing, nothing is drawn: the last hit of a chain needs the miss at its
end. -/
lemma not_drawn_of_demoted_eq_nil (hnone : demoted graph hits misses = []) :
    ¬Drawn graph hits misses p := by
  rintro ⟨m, hm, hchain⟩
  obtain ⟨x, -, hx, hneeds⟩ := TransGen.tail'_iff.1 hchain
  obtain ⟨h, hh, rfl⟩ := List.mem_map.1 hx
  have hmem : h ∈ demoted graph hits misses :=
    List.mem_filter.2 ⟨hh, needsAny_iff.2 ⟨m, hm, hneeds⟩⟩
  rw [hnone] at hmem
  cases hmem

/-- A round leaves the question what it was.  A chain of the kept hits to a demoted one goes on to a
miss, and a chain of all hits can be cut at the first demoted one. -/
lemma drawn_kept_iff (hp : p ∈ (kept graph hits misses).map Prod.fst) :
    Drawn graph (kept graph hits misses)
        (misses ++ (demoted graph hits misses).map Prod.fst) p
      ↔ Drawn graph hits misses p := by
  constructor
  · rintro ⟨m, hm, hchain⟩
    have hneeds : HitNeeds graph (kept graph hits misses) ≤ HitNeeds graph hits := by
      rintro x y ⟨hx, hxy⟩
      obtain ⟨h, hh, rfl⟩ := List.mem_map.1 hx
      exact ⟨List.mem_map.2 ⟨h, (List.mem_filter.1 hh).1, rfl⟩, hxy⟩
    have hwide : TransGen (HitNeeds graph hits) p m := TransGen.mono hneeds p m hchain
    rcases List.mem_append.1 hm with hm | hm
    · exact ⟨m, hm, hwide⟩
    · obtain ⟨h, hh, rfl⟩ := List.mem_map.1 hm
      obtain ⟨hhits, hneeds⟩ := List.mem_filter.1 hh
      obtain ⟨q, hq, hrest⟩ := drawn_of_needsAny hhits hneeds
      exact ⟨q, hq, hwide.trans hrest⟩
  · rintro ⟨m, hm, hchain⟩
    induction hchain using TransGen.head_induction_on with
    | single hpm => exact ⟨m, List.mem_append_left _ hm, .single ⟨hp, hpm.2⟩⟩
    | @head p x hpx hxm ih =>
        obtain ⟨y, hxy, -⟩ := TransGen.head'_iff.1 hxm
        obtain ⟨h, hh, rfl⟩ := List.mem_map.1 hxy.1
        rcases List.mem_append.1 ((perm_demoted_kept graph hits misses).mem_iff.2 hh) with hh | hh
        · exact ⟨h.1, List.mem_append_right _ (List.mem_map.2 ⟨h, hh, rfl⟩), .single ⟨hp, hpx.2⟩⟩
        · obtain ⟨q, hq, hrest⟩ := ih (List.mem_map.2 ⟨h, hh, rfl⟩)
          exact ⟨q, hq, .head ⟨hp, hpx.2⟩ hrest⟩

/-! ## All rounds -/

section

open Classical

/-- The hits that are not drawn were all kept by the first round. -/
lemma filter_kept : (kept graph hits misses).filter (fun h => ¬Drawn graph hits misses h.1)
    = hits.filter fun h => ¬Drawn graph hits misses h.1 := by
  rw [kept, List.filter_filter]
  refine List.filter_congr fun h hh => ?_
  cases hneeds : needsAny graph (PathSet.ofPaths misses) h with
  | false => simp
  | true => simp [drawn_of_needsAny hh hneeds]

/-- The hits that are drawn are demoted by the first round, or drawn among those that it keeps. -/
lemma perm_filter_drawn (graph : Graph) (hits : List Hit) (misses : List Path) :
    (demoted graph hits misses ++ (kept graph hits misses).filter
      fun h => Drawn graph hits misses h.1).Perm (hits.filter fun h => Drawn graph hits misses h.1) := by
  have hmoved : (demoted graph hits misses).filter (fun h => Drawn graph hits misses h.1)
      = demoted graph hits misses := by
    refine List.filter_eq_self.2 fun h hh => decide_eq_true ?_
    obtain ⟨hhits, hneeds⟩ := List.mem_filter.1 hh
    exact drawn_of_needsAny hhits hneeds
  have hperm := (perm_demoted_kept graph hits misses).filter fun h => Drawn graph hits misses h.1
  rwa [List.filter_append, hmoved] at hperm

/-- The hits that are not drawn stay, as they are, and the others come after the misses. -/
structure Exact (graph : Graph) (hits : List Hit) (misses : List Path) (d : Division) : Prop where
  stay : d.hits = hits.filter fun h => ¬Drawn graph hits misses h.1
  follow : ∃ after, d.misses = misses ++ after
    ∧ after.Perm ((hits.filter fun h => Drawn graph hits misses h.1).map Prod.fst)

/-- What is exact after the first round is exact. -/
lemma Exact.of_round {d : Division} (h : Exact graph (kept graph hits misses)
    (misses ++ (demoted graph hits misses).map Prod.fst) d) : Exact graph hits misses d := by
  -- The later rounds ask about the kept hits what the first one could have asked about all.
  have hsame : ∀ h ∈ kept graph hits misses, (Drawn graph (kept graph hits misses)
      (misses ++ (demoted graph hits misses).map Prod.fst) h.1 ↔ Drawn graph hits misses h.1) :=
    fun h hh => drawn_kept_iff (List.mem_map.2 ⟨h, hh, rfl⟩)
  obtain ⟨hstay, after, hmisses, hafter⟩ := h
  constructor
  · refine hstay.trans (Eq.trans (List.filter_congr fun h hh => ?_) filter_kept)
    simp only [hsame h hh]
  · have hdrawn : (kept graph hits misses).filter (fun h => Drawn graph (kept graph hits misses)
          (misses ++ (demoted graph hits misses).map Prod.fst) h.1)
        = (kept graph hits misses).filter fun h => Drawn graph hits misses h.1 :=
      List.filter_congr fun h hh => by simp only [hsame h hh]
    have hperm := (perm_filter_drawn graph hits misses).map Prod.fst
    rw [hdrawn] at hafter
    rw [List.map_append] at hperm
    refine ⟨(demoted graph hits misses).map Prod.fst ++ after, ?_, (hafter.append_left _).trans hperm⟩
    rw [hmisses, List.append_assoc]

lemma exact_demoteFrom (graph : Graph) (hits : List Hit) (misses : List Path) :
    Exact graph hits misses (demoteFrom graph hits misses) := by
  fun_induction demoteFrom graph hits misses with
  | case1 hits misses stale moved hnone =>
      have hdrawn : ∀ h ∈ hits, ¬Drawn graph hits misses h.1 :=
        fun h _ => not_drawn_of_demoted_eq_nil hnone
      have hnil : hits.filter (fun h => Drawn graph hits misses h.1) = [] :=
        List.filter_eq_nil_iff.2 fun h hh => by simpa using hdrawn h hh
      refine ⟨(List.filter_eq_self.2 fun h hh => decide_eq_true (hdrawn h hh)).symm, [], by simp, ?_⟩
      rw [hnil]
      exact List.Perm.refl _
  | case2 hits misses stale moved hsome hlt ih => exact Exact.of_round ih

/-- **Demotion is exact.**  A hit stays a hit, in its place and with its entry, exactly if no chain of
needs leads from it over hits to a miss; all other hits follow the misses, so that every file is listed
as often as before; and in another order of hits and misses the same hits stay. -/
theorem demote_exact (graph : Graph) (d : Division) :
    (d.demote graph).hits = d.hits.filter (fun h => ¬Drawn graph d.hits d.misses h.1)
      ∧ (∃ after, (d.demote graph).misses = d.misses ++ after
        ∧ after.Perm ((d.hits.filter fun h => Drawn graph d.hits d.misses h.1).map Prod.fst))
      ∧ ((d.demote graph).hits.map Prod.fst ++ (d.demote graph).misses).Perm
        (d.hits.map Prod.fst ++ d.misses)
      ∧ ∀ d' : Division, d'.hits.Perm d.hits → d'.misses.Perm d.misses →
        (d'.demote graph).hits.Perm (d.demote graph).hits := by
  obtain ⟨hhits, hmisses⟩ := exact_demoteFrom graph d.hits d.misses
  refine ⟨hhits, hmisses, (demoted_demote graph d).perm, fun d' hhits' hmisses' => ?_⟩
  have hsame : ∀ h : Hit, Drawn graph d'.hits d'.misses h.1 ↔ Drawn graph d.hits d.misses h.1 :=
    fun h => drawn_congr (fun x => hhits'.mem_iff) fun x => hmisses'.mem_iff
  rw [show (d.demote graph).hits = _ from hhits,
    show (d'.demote graph).hits = _ from (exact_demoteFrom graph d'.hits d'.misses).stay]
  simp only [hsame]
  exact hhits'.filter _

end

end Rebuild.Division
