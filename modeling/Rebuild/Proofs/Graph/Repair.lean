import Rebuild.Proofs.Graph.Nodes
import Rebuild.Proofs.Path.Spelling

/-!
# Repair of the edges

What is read back from a store may claim any dependents at all.  Repair forgets the claims and walks
once over the forward edges, and brings in a node where one of them points to none.

* **One walk.**  What a graph answers after the walk is what it answered before, or else what the
  first edge brings in that brings anything in (`rebuildDependents_or`).  This gives the nodes
  (`map_bare_rebuildDependents`), the spellings of the keys (`getKey?_rebuildDependents`) and the
  spellings of the dependents (`spelling?_rebuildDependents`).
* **Once more.**  Where both directions agree, every target has a node, and the same files are the
  dependents again (`InStep.agrees`).  They are spelled as the keys are, so a second walk does not
  change as much as a letter (`InStep.agrees_exactly`).
* **Endpoint.**  `repaired_ofNodes`, for every table of nodes.
-/

namespace Rebuild.Graph

variable {g : Graph} {a d p q r k : Path}

/-! ## What is kept and what is the same -/

/-- The graph is what repair makes of these nodes. -/
structure Repaired (nodes : PathMap GraphNode) (g : Graph) : Prop where
  /-- Every edge is known at both its ends. -/
  consistent : g.isConsistent = true
  /-- A node that was there is still there, under the same key and with all it held but its
  dependents. -/
  kept : ∀ (p : Path) (n : GraphNode), nodes[p]? = some n →
    g.nodes.getKey? p = nodes.getKey? p ∧ (g.node? p).map bare = some (bare n)
  /-- A file that is needed and had no node has one that was never built and needs nothing, spelled
  as an edge spells it. -/
  added : ∀ p : Path, nodes[p]? = none → (∃ q, Needs ⟨nodes⟩ q p) →
    ∃ e ∈ edges ⟨nodes⟩, compare e.2 p = .eq ∧ g.nodes.getKey? p = some e.2
      ∧ (g.node? p).map bare = some { path := e.2 }
  /-- No other file has a node. -/
  onlyThese : ∀ p : Path, nodes[p]? = none → (¬∃ q, Needs ⟨nodes⟩ q p) → g.node? p = none

/-- The graphs have the same nodes, in the same spellings, and the same dependents as far as they are
viewed. -/
structure Agrees {α : Type} (view : Path → α) (g g' : Graph) : Prop where
  keys : g.nodes.keys = g'.nodes.keys
  nodes : ∀ p, (g.node? p).map bare = (g'.node? p).map bare
  dependents : ∀ p, (g.dependents p).map view = (g'.dependents p).map view

/-! ## The check of the edges -/

/-- The check of the edges succeeds exactly when both directions agree. -/
lemma isConsistent_iff : g.isConsistent = true ↔ g.InStep := by
  refine ⟨fun h p q => ?_, InStep.isConsistent⟩
  -- The check looks at the spellings in the lists.
  rw [isConsistent, List.all_eq_true] at h
  constructor
  · rintro ⟨n, hn, hq⟩
    obtain ⟨a, hpa, hmem⟩ :=
      Std.TreeMap.getElem?_eq_some_iff_exists_compare_eq_eq_and_mem_toList.1 hn
    obtain ⟨d, hd, hdq⟩ := PathSet.mem_iff_toList.1 hq
    have hchecked := List.all_eq_true.1 (Bool.and_eq_true_iff.1 (h _ hmem)).1 d hd
    obtain ⟨m, hm, ha⟩ := (Option.any_eq_true _ _).1 hchecked
    exact (neededBy_congr g hdq (Path.compare_comm.1 hpa)).1 ⟨m, hm, ha⟩
  · rintro ⟨n, hn, hp⟩
    obtain ⟨a, hqa, hmem⟩ :=
      Std.TreeMap.getElem?_eq_some_iff_exists_compare_eq_eq_and_mem_toList.1 hn
    obtain ⟨d, hd, hdp⟩ := PathSet.mem_iff_toList.1 hp
    have hchecked := List.all_eq_true.1 (Bool.and_eq_true_iff.1 (h _ hmem)).2 d hd
    obtain ⟨m, hm, ha⟩ := (Option.any_eq_true _ _).1 hchecked
    exact (needs_congr g hdp (Path.compare_comm.1 hqa)).1 ⟨m, hm, ha⟩

/-! ## Spellings -/

/-- The spelling under which `q` knows that `r` needs it. -/
def spelling? (g : Graph) (q r : Path) : Option Path :=
  (g.node? q).bind fun n => n.dependents.get? r

/-- Every dependent is spelled as its own key is. -/
def Tidy (g : Graph) : Prop := ∀ q r k, g.spelling? q r = some k → g.nodes.getKey? r = some k

lemma neededBy_iff_spelling? : g.NeededBy q r ↔ ∃ k, g.spelling? q r = some k := by
  rw [NeededBy, spelling?, ← Option.isSome_iff_exists]
  cases g.node? q with
  | none => simp
  | some n =>
      rw [Option.bind_some, ← Std.TreeSet.contains_eq_isSome_get?, Std.TreeSet.contains_iff_mem]
      simp

/-- What a file knows of its dependents is one set, which is empty if the file has no node. -/
lemma exists_dependents (g : Graph) (q : Path) : ∃ s : PathSet, g.dependents q = s.toList
    ∧ (∀ r, r ∈ s ↔ g.NeededBy q r) ∧ ∀ r, s.get? r = g.spelling? q r := by
  simp only [dependents, NeededBy, spelling?]
  cases g.node? q with
  | none => exact ⟨∅, rfl, by simp, by simp⟩
  | some n => exact ⟨n.dependents, rfl, by simp, fun _ => rfl⟩

lemma getKey?_addEdge : (addEdge a g d).nodes.getKey? q
    = (g.nodes.getKey? q).or (if compare d q = .eq then some d else none) :=
  (PathMap.getKey?_adjust _ d q _).trans (PathMap.getKey?_ensure g.nodes d q _)

lemma spelling?_ensure : (g.ensure d).spelling? q r = g.spelling? q r := by
  rw [spelling?, node?_ensure]
  split_ifs with hnew
  · rw [spelling?, ← node?_congr g hnew.1, hnew.2]
    exact Std.TreeSet.get?_emptyc
  · rfl

lemma spelling?_addEdge : (addEdge a g d).spelling? q r = (g.spelling? q r).or
    (if compare d q = .eq ∧ compare a r = .eq then some a else none) := by
  have hsome := node?_ensure_self_ne_none g d
  rw [← spelling?_ensure (g := g) (d := d)]
  rw [spelling?, addEdge, node?_adjust]
  by_cases hq : compare d q = .eq
  · rw [node?_congr _ hq] at hsome
    obtain ⟨n, hn⟩ := Option.ne_none_iff_exists'.1 hsome
    simp only [spelling?, hn, hq, if_true, true_and]
    exact PathSet.get?_insert n.dependents a r
  · simp only [hq, if_false, false_and, Option.or_none]
    rfl

/-! ## The walk over the edges -/

/-- Keys keep their spellings, and a new one is spelled as the first edge spells it. -/
lemma getKey?_rebuildDependents (g : Graph) (q : Path) :
    (rebuildDependents g).nodes.getKey? q
      = (g.nodes.getKey? q).or ((g.firstEdgeTo? q).map Prod.snd) := by
  rw [← Std.TreeMap.getKey?_map (t := g.nodes) (f := fun _ n => bare n), ← findSome?_edges]
  exact rebuildDependents_or (f := fun g => g.nodes.getKey? q) (fun _ _ => getKey?_addEdge) g

lemma spelling?_rebuildDependents (g : Graph) (q r : Path) :
    (rebuildDependents g).spelling? q r = g.edges.findSome? fun e =>
      if compare e.2 q = .eq ∧ compare e.1 r = .eq then some e.1 else none := by
  have hbare : (Graph.mk (g.nodes.map fun _ n => bare n)).spelling? q r = none := by
    rw [spelling?, node?, PathMap.getElem?_map]
    cases g.nodes[q]? with
    | none => rfl
    | some n => exact Std.TreeSet.get?_emptyc
  rw [rebuildDependents_or (f := fun g => g.spelling? q r) (fun _ _ => spelling?_addEdge), hbare,
    Option.none_or]

lemma inStep_rebuildDependents (g : Graph) : (rebuildDependents g).InStep := inStep_ofNodes g.nodes

lemma needs_rebuildDependents : (rebuildDependents g).Needs p q ↔ g.Needs p q :=
  @needs_ofNodes g.nodes p q

/-- An edge starts at a key of the table. -/
lemma getKey?_of_mem_edges {e : Path × Path} (he : e ∈ g.edges) :
    g.nodes.getKey? e.1 = some e.1 := by
  obtain ⟨⟨p, n⟩, hmem, hlist⟩ := List.mem_flatMap.1 he
  obtain ⟨d, -, rfl⟩ := List.mem_map.1 hlist
  exact PathMap.getKey?_of_mem_toList hmem

/-- After the walk a file knows exactly the files that need it, as their keys are spelled. -/
lemma spelling?_rebuildDependents_eq_some_iff :
    (rebuildDependents g).spelling? q r = some k ↔ g.Needs r q ∧ g.nodes.getKey? r = some k := by
  have hkey : ∀ {k}, (rebuildDependents g).spelling? q r = some k → g.nodes.getKey? r = some k := by
    intro k hk
    rw [spelling?_rebuildDependents] at hk
    obtain ⟨e, he, hfound⟩ := List.exists_of_findSome?_eq_some hk
    split_ifs at hfound with hends
    cases hfound
    rw [← Std.TreeMap.getKey?_congr hends.2]
    exact getKey?_of_mem_edges he
  have hneeds : g.Needs r q ↔ ∃ k, (rebuildDependents g).spelling? q r = some k := by
    rw [← neededBy_iff_spelling?, ← inStep_rebuildDependents g r q, needs_rebuildDependents]
  constructor
  · exact fun hk => ⟨hneeds.2 ⟨k, hk⟩, hkey hk⟩
  · rintro ⟨hq, hk⟩
    obtain ⟨k', hk'⟩ := hneeds.1 hq
    rw [hk', ← hkey hk', hk]

lemma tidy_rebuildDependents (g : Graph) : (rebuildDependents g).Tidy := by
  intro q r k hk
  rw [getKey?_rebuildDependents, (spelling?_rebuildDependents_eq_some_iff.1 hk).2]
  rfl

/-! ## Once more -/

/-- Where both directions agree, the edges point to nodes only. -/
lemma InStep.firstEdgeTo?_eq_none (h : g.InStep) (hq : g.node? q = none) :
    g.firstEdgeTo? q = none := by
  refine firstEdgeTo?_eq_none_iff.2 fun p hp => ?_
  obtain ⟨n, hn, -⟩ := (h p q).1 hp
  cases hn.symm.trans hq

lemma InStep.keys_rebuildDependents (h : g.InStep) :
    (rebuildDependents g).nodes.keys = g.nodes.keys := by
  refine PathMap.keys_eq_of_getKey?_eq fun q => ?_
  rw [getKey?_rebuildDependents]
  cases hq : g.nodes.getKey? q with
  | none =>
      rw [h.firstEdgeTo?_eq_none (PathMap.getKey?_eq_none_iff.1 hq)]
      rfl
  | some k => rfl

lemma InStep.map_bare_rebuildDependents (h : g.InStep) (q : Path) :
    ((rebuildDependents g).node? q).map bare = (g.node? q).map bare := by
  rw [Graph.map_bare_rebuildDependents]
  cases hq : g.node? q with
  | none =>
      rw [h.firstEdgeTo?_eq_none hq]
      rfl
  | some n => rfl

lemma InStep.neededBy_rebuildDependents (h : g.InStep) :
    (rebuildDependents g).NeededBy q r ↔ g.NeededBy q r := by
  rw [← inStep_rebuildDependents g r q, needs_rebuildDependents, h r q]

/-- Where both directions agree, the walk changes nothing but spellings of dependents. -/
lemma InStep.agrees (h : g.InStep) : Agrees Path.components (rebuildDependents g) g := by
  refine ⟨h.keys_rebuildDependents, h.map_bare_rebuildDependents, fun q => ?_⟩
  obtain ⟨s, hs, hmem, -⟩ := exists_dependents (rebuildDependents g) q
  obtain ⟨s', hs', hmem', -⟩ := exists_dependents g q
  rw [hs, hs']
  refine PathSet.map_components_toList_eq fun r => ?_
  rw [hmem, hmem', h.neededBy_rebuildDependents]

/-- Where moreover every dependent is spelled as its key is, it changes nothing at all. -/
lemma InStep.agrees_exactly (h : g.InStep) (htidy : g.Tidy) : Agrees id (rebuildDependents g) g := by
  have hspelling : ∀ q r, (rebuildDependents g).spelling? q r = g.spelling? q r := by
    intro q r
    refine Option.ext fun k => ?_
    rw [spelling?_rebuildDependents_eq_some_iff, h r q, neededBy_iff_spelling?]
    constructor
    · rintro ⟨⟨k', hk'⟩, hk⟩
      rw [hk', ← htidy q r k' hk', hk]
    · exact fun hk => ⟨⟨k, hk⟩, htidy q r k hk⟩
  refine ⟨h.keys_rebuildDependents, h.map_bare_rebuildDependents, fun q => ?_⟩
  obtain ⟨s, hs, -, hget⟩ := exists_dependents (rebuildDependents g) q
  obtain ⟨s', hs', -, hget'⟩ := exists_dependents g q
  have hequiv : s.Equiv s' := Std.TreeSet.Equiv.of_forall_get?_eq fun r => by
    rw [hget, hget', hspelling]
  rw [hs, hs', hequiv.toList_eq]

/-! ## Any nodes at all -/

lemma Repaired.ofNodes (nodes : PathMap GraphNode) :
    Repaired nodes (Graph.ofNodes nodes) where
  consistent := (inStep_ofNodes nodes).isConsistent
  kept p n hn := by
    obtain ⟨k, hk⟩ : ∃ k, nodes.getKey? p = some k := by
      refine Option.ne_none_iff_exists'.1 fun hnone => ?_
      cases hn.symm.trans (PathMap.getKey?_eq_none_iff.1 hnone)
    constructor
    · rw [Graph.ofNodes, getKey?_rebuildDependents, hk]
      rfl
    · rw [Graph.ofNodes, map_bare_rebuildDependents, node?, hn]
      rfl
  added p hp hneeded := by
    obtain ⟨q, hq⟩ := hneeded
    obtain ⟨e, he⟩ : ∃ e, firstEdgeTo? ⟨nodes⟩ p = some e :=
      Option.ne_none_iff_exists'.1 fun hnone => firstEdgeTo?_eq_none_iff.1 hnone q hq
    obtain ⟨hmem, hp'⟩ := points_of_firstEdgeTo? he
    refine ⟨e, hmem, hp', ?_, ?_⟩
    · rw [Graph.ofNodes, getKey?_rebuildDependents, PathMap.getKey?_eq_none_iff.2 hp, he]
      rfl
    · rw [Graph.ofNodes, map_bare_rebuildDependents, node?, hp, he]
      rfl
  onlyThese p hp hneeded := by
    have hbefore : node? ⟨nodes⟩ p = none := hp
    have hafter := map_bare_rebuildDependents ⟨nodes⟩ p
    rw [hbefore, firstEdgeTo?_eq_none_iff.2 fun q hq => hneeded ⟨q, hq⟩] at hafter
    exact Option.map_eq_none_iff.1 hafter

/-- **Repair works on any nodes at all.**  Whatever dependents the nodes claim, and wherever their
edges point, all that they hold themselves is kept, exactly the missing targets are brought in, and
both directions agree; another repair does not change anything.  A graph in which both directions
agree is left as it is, up to how its dependents are spelled. -/
theorem repaired_ofNodes (nodes : PathMap GraphNode) : Repaired nodes (ofNodes nodes)
    ∧ Agrees id (rebuildDependents (ofNodes nodes)) (ofNodes nodes)
    ∧ ∀ g : Graph, g.isConsistent = true → Agrees Path.components (rebuildDependents g) g :=
  ⟨.ofNodes nodes,
    (inStep_rebuildDependents ⟨nodes⟩).agrees_exactly (tidy_rebuildDependents ⟨nodes⟩),
    fun _ hg => (isConsistent_iff.1 hg).agrees⟩

namespace Contradictory

/-- `a` needs itself and a file without a node, and claims to be needed by one that does not need
it. -/
def claimed : PathMap GraphNode :=
  PathMap.put ∅ ⟨"a"⟩ {
    path := ⟨"a"⟩
    dependencies := PathSet.collect [⟨"a"⟩, ⟨"lib//b"⟩]
    dependents := PathSet.collect [⟨"z"⟩] }

/-- Both directions agree, and a dependent is spelled in another way than its key. -/
def untidy : Graph where
  nodes :=
    (PathMap.put ∅ ⟨"lib/b"⟩ { path := ⟨"lib/b"⟩, dependencies := PathSet.collect [⟨"c"⟩] }).put
      ⟨"c"⟩ { path := ⟨"c"⟩, dependents := PathSet.collect [⟨"lib//b"⟩] }

end Contradictory

open Contradictory in
/-- The missing file gets a node and the false claim goes.  Where both directions agree, only the
spelling of a dependent may change. -/
theorem repaired_ofNodes_contradictory :
    Repaired claimed (ofNodes claimed)
    ∧ (ofNodes claimed).nodes.keys = [⟨"a"⟩, ⟨"lib//b"⟩]
    ∧ (ofNodes claimed).dependents ⟨"a"⟩ = [⟨"a"⟩]
    ∧ Agrees id (rebuildDependents (ofNodes claimed)) (ofNodes claimed)
    ∧ untidy.isConsistent = true
    ∧ untidy.dependents ⟨"c"⟩ = [⟨"lib//b"⟩]
    ∧ (rebuildDependents untidy).dependents ⟨"c"⟩ = [⟨"lib/b"⟩]
    ∧ Agrees Path.components (rebuildDependents untidy) untidy := by
  obtain ⟨hrepaired, hsettled, hleft⟩ := repaired_ofNodes claimed
  have hconsistent : untidy.isConsistent = true := by decide +kernel
  exact ⟨hrepaired, by decide +kernel, by decide +kernel, hsettled, hconsistent, by decide +kernel,
    by decide +kernel, hleft untidy hconsistent⟩

end Rebuild.Graph
