import Mathlib.Data.List.Nodup
import Mathlib.Data.List.Perm.Basic
import Rebuild.Compilation.Basic
import Rebuild.Proofs.Cache.Fresh
import Rebuild.Proofs.Graph.Edges

/-!
# How a pass divides its files

Each file of a pass is a hit or a miss, and no hit needs a miss.

* **Files.**  `mem_inputs`, `nodup_inputs`: the normal forms of the files, each once.
* **Answers.**  `foldl_lookup`: the first division goes by what the cache answers about each file, and
  asking changes no answer.
* **Demotion.**  `demoted_demote`: hits become misses until no hit is left that needs a miss, and no
  file is lost on the way.
-/

namespace Rebuild

/-! ## Files -/

namespace Compilation

variable {files : List Path} {p : Path}

lemma normalize_of_mem_inputs (h : p ∈ inputs files) : p.normalize = p :=
  Path.normalize_of_mem_map (Reach.mem_of_mem_fresh h).1

/-- The files of a pass are the normal forms of those that it is given. -/
lemma mem_inputs : p ∈ inputs files ↔ p ∈ files.map Path.normalize := by
  constructor
  · intro h
    exact (Reach.mem_of_mem_fresh h).1
  · intro h
    have hfound := Reach.among_append_fresh [] h
    rw [List.nil_append] at hfound
    obtain ⟨q, hq, hpq⟩ := Reach.among_iff.1 hfound
    obtain ⟨x, -, rfl⟩ := List.mem_map.1 h
    rwa [Path.eq_of_compare (Path.normalize_normalize x) (normalize_of_mem_inputs hq) hpq]

lemma nodup_inputs (files : List Path) : (inputs files).Nodup := Reach.nodup_fresh

/-! ## Answers -/

variable {sight : Sight} {force : Bool}

/-- What the cache answers to a pass about a file. -/
def answerFor (sight : Sight) (force : Bool) (c : Cache) (p : Path) : Option CacheEntry :=
  if force then none else c.fresh? (sight (.lookup p)) p

lemma answerFor_congr {c c' : Cache} (h : c.SameContent c') :
    answerFor sight force c' = answerFor sight force c := by
  funext p
  simp only [answerFor]
  rw [h.fresh?_eq]

/-- One look puts the file where the answer says. -/
lemma lookup_eq (sight : Sight) (force : Bool) (c : Cache) (d : Division) (p : Path) :
    c.SameContent (lookup sight force (c, d) p).1
      ∧ (lookup sight force (c, d) p).2 = match answerFor sight force c p with
        | some e => { d with hits := d.hits ++ [(p, e)] }
        | none => { d with misses := d.misses ++ [p] } := by
  rw [lookup, answerFor]
  cases force with
  | true => exact ⟨.refl c, rfl⟩
  | false =>
      have hsame := Cache.sameContent_fresh c (sight (.lookup p)) p
      rw [Cache.fresh?]
      rcases hanswer : c.fresh (sight (.lookup p)) p with ⟨asked, answer⟩
      rw [hanswer] at hsame
      cases answer with
      | none => simpa [hanswer] using hsame
      | some e => simpa [hanswer] using hsame

/-- The files with the entries that the cache answers with. -/
def hitsAmong (sight : Sight) (force : Bool) (c : Cache) (ps : List Path) : List Hit :=
  ps.filterMap fun p => (answerFor sight force c p).map (p, ·)

/-- The files for which the cache has no answer. -/
def missesAmong (sight : Sight) (force : Bool) (c : Cache) (ps : List Path) : List Path :=
  ps.filter fun p => (answerFor sight force c p).isNone

lemma foldl_lookup (sight : Sight) (force : Bool) (ps : List Path) (c : Cache) (d : Division) :
    c.SameContent (ps.foldl (lookup sight force) (c, d)).1
      ∧ (ps.foldl (lookup sight force) (c, d)).2 =
        ⟨d.hits ++ hitsAmong sight force c ps, d.misses ++ missesAmong sight force c ps⟩ := by
  induction ps generalizing c d with
  | nil => exact ⟨.refl c, by simp [hitsAmong, missesAmong]⟩
  | cons p ps ih =>
      obtain ⟨hsame, hdivision⟩ := lookup_eq sight force c d p
      rcases hnext : lookup sight force (c, d) p with ⟨c', d'⟩
      rw [hnext] at hsame hdivision
      obtain ⟨hrest, hresult⟩ := ih c' d'
      rw [List.foldl_cons, hnext]
      refine ⟨hsame.trans hrest, hresult.trans ?_⟩
      simp only [hitsAmong, missesAmong]
      rw [answerFor_congr hsame, List.filterMap_cons, List.filter_cons]
      subst hdivision
      cases answerFor sight force c p <;> simp

lemma mem_hitsAmong {c : Cache} {ps : List Path} {e : CacheEntry} :
    (p, e) ∈ hitsAmong sight force c ps ↔ p ∈ ps ∧ answerFor sight force c p = some e := by
  rw [hitsAmong]
  simp only [List.mem_filterMap, Option.map_eq_some_iff, Prod.mk.injEq]
  constructor
  · rintro ⟨q, hq, e', hanswer, rfl, rfl⟩
    exact ⟨hq, hanswer⟩
  · rintro ⟨hp, hanswer⟩
    exact ⟨p, hp, e, hanswer, rfl, rfl⟩

lemma mem_missesAmong {c : Cache} {ps : List Path} :
    p ∈ missesAmong sight force c ps ↔ p ∈ ps ∧ answerFor sight force c p = none := by
  rw [missesAmong]
  rw [List.mem_filter, Option.isNone_iff_eq_none]

/-- Hits and misses are all the files. -/
lemma perm_hitsAmong (c : Cache) (ps : List Path) :
    ((hitsAmong sight force c ps).map Prod.fst ++ missesAmong sight force c ps).Perm ps := by
  induction ps with
  | nil => exact List.Perm.refl _
  | cons p ps ih =>
      rw [hitsAmong, missesAmong] at ih ⊢
      rw [List.filterMap_cons, List.filter_cons]
      cases answerFor sight force c p with
      | some e => simpa using ih
      | none => simpa using List.perm_middle.trans (ih.cons p)

/-- Where the cache answers about every file, the hits are the files, in order. -/
lemma map_fst_hitsAmong {c : Cache} {ps : List Path} (h : missesAmong sight force c ps = []) :
    (hitsAmong sight force c ps).map Prod.fst = ps := by
  induction ps with
  | nil => rfl
  | cons p ps ih =>
      simp only [hitsAmong, missesAmong] at ih h ⊢
      rw [List.filter_cons] at h
      rw [List.filterMap_cons]
      cases hanswer : answerFor sight force c p with
      | none => simp [hanswer] at h
      | some e =>
          simp only [hanswer, Option.isNone_some, Bool.false_eq_true, if_false] at h
          simp only [Option.map_some, List.map_cons, ih h]

end Compilation

/-! ## Demotion -/

namespace Division

/-- What demotion leaves of a division. -/
structure Demoted (graph : Graph) (d d' : Division) : Prop where
  hits : d'.hits.Sublist d.hits
  misses : ∀ p ∈ d.misses, p ∈ d'.misses
  perm : (d'.hits.map Prod.fst ++ d'.misses).Perm (d.hits.map Prod.fst ++ d.misses)
  needs : ∀ h ∈ d'.hits, ∀ q ∈ d'.misses, ¬graph.Needs h.1 q

lemma needsAny_iff {graph : Graph} {misses : List Path} {h : Hit} :
    needsAny graph (PathSet.ofPaths misses) h = true ↔ ∃ q ∈ misses, graph.Needs h.1 q := by
  rw [needsAny]
  simp only [List.any_eq_true, Std.TreeSet.contains_iff_mem, PathSet.mem_ofPaths]
  constructor
  · rintro ⟨d, hd, q, hq, hqd⟩
    exact ⟨q, hq, Graph.needs_iff_dependencies.2 ⟨d, hd, Path.compare_comm.1 hqd⟩⟩
  · rintro ⟨q, hq, hneeds⟩
    obtain ⟨d, hd, hdq⟩ := Graph.needs_iff_dependencies.1 hneeds
    exact ⟨d, hd, q, hq, Path.compare_comm.1 hdq⟩

lemma demoted_demoteFrom (graph : Graph) (hits : List Hit) (misses : List Path) :
    Demoted graph ⟨hits, misses⟩ (demoteFrom graph hits misses) := by
  fun_induction demoteFrom graph hits misses with
  | case1 hits misses stale demoted hnone =>
      refine ⟨List.Sublist.refl _, fun _ h => h, List.Perm.refl _, fun h hh q hq hneeds => ?_⟩
      have hmem : h ∈ demoted := List.mem_filter.2 ⟨hh, needsAny_iff.2 ⟨q, hq, hneeds⟩⟩
      rw [hnone] at hmem
      cases hmem
  | case2 hits misses stale demoted hsome hlt ih =>
      refine ⟨ih.hits.trans List.filter_sublist, fun p hp => ih.misses p ?_,
        ih.perm.trans ?_, ih.needs⟩
      · exact List.mem_append_left _ hp
      · have hsplit : (demoted ++ hits.filter fun x => !needsAny graph stale x).Perm hits :=
          List.filter_append_perm _ hits
        refine List.Perm.trans ?_ ((hsplit.map Prod.fst).append_right misses)
        rw [List.map_append, ← List.append_assoc]
        refine List.perm_append_comm.trans ?_
        rw [← List.append_assoc]

/-- **Demotion.**  No hit is left that needs a miss, and every file is still there. -/
theorem demoted_demote (graph : Graph) (d : Division) : Demoted graph d (d.demote graph) :=
  demoted_demoteFrom graph d.hits d.misses

/-- Where there is no miss, no hit is demoted. -/
lemma demote_of_no_misses (graph : Graph) (hits : List Hit) :
    demote graph ⟨hits, []⟩ = ⟨hits, []⟩ := by
  have hnone : hits.filter (needsAny graph (PathSet.ofPaths [])) = [] := by
    refine List.filter_eq_nil_iff.2 fun h _ hneeds => ?_
    obtain ⟨q, hq, -⟩ := needsAny_iff.1 hneeds
    cases hq
  rw [demote]
  rw [demoteFrom]
  exact dif_pos hnone

end Division
end Rebuild
