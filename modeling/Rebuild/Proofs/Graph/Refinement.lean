import Mathlib.Data.List.Induction
import Mathlib.Tactic.Common
import Rebuild.Proofs.Graph.Edges

/-!
# The graph as a plain map

A graph that is changed by any sequence of operations answers as two plain maps do: what was last
set for each file, and what was last recorded of its build.  Nodes come and go on the way, and none
of that shows.

* **The maps.**  `lastNeeds` and `lastBuild` look for the last operation that says anything about a
  file.
* **Builds.**  `Carries` says which build a file has, without a node if there is none; it is kept
  by all that moves edges, and in particular by pruning (`Carries.pruneOrphan`).
* **Endpoint.**  `answers_ofOperations`, for all sequences of operations and all files.
-/

namespace Rebuild

/-- What is recorded of a build. -/
structure Build where
  input : Digest
  output : Digest
  metadata : Option Json

/-- The node has this build, or none. -/
def GraphNode.Carries (n : GraphNode) : Option Build → Prop
  | some b => n.inputDigest = some b.input ∧ n.outputDigest = some b.output
      ∧ n.metadata = b.metadata
  | none => n.inputDigest = none ∧ n.outputDigest = none ∧ n.metadata = none

namespace Graph

/-! ## Histories -/

/-- A change of the graph. -/
inductive Operation where
  | set (p : Path) (needed : List Path)
  | build (p : Path) (b : Build)
  | remove (p : Path)
  | clear

/-- The graph after an operation. -/
def apply (g : Graph) : Operation → Graph
  | .set p needed => g.setDependencies p needed
  | .build p b => g.recordBuild p b.input b.output b.metadata
  | .remove p => g.remove p
  | .clear => empty

/-- The graph that these operations make, the first one first. -/
def ofOperations (operations : List Operation) : Graph := operations.foldl apply empty

namespace Operation

/-- What the operation says about the needs of a file, if it says anything. -/
def needs? (q : Path) : Operation → Option (List Path)
  | set p needed => if compare p q = .eq then some needed else none
  | remove p => if compare p q = .eq then some [] else none
  | clear => some []
  | build _ _ => none

/-- What the operation says about the build of a file, if it says anything. -/
def build? (q : Path) : Operation → Option (Option Build)
  | build p b => if compare p q = .eq then some (some b) else none
  | remove p => if compare p q = .eq then some none else none
  | clear => some none
  | set _ _ => none

end Operation

/-- What was last set for a file and not taken away since. -/
def lastNeeds (operations : List Operation) (p : Path) : List Path :=
  (operations.reverse.findSome? (Operation.needs? p)).getD []

/-- The last build that was recorded of a file and not taken away since. -/
def lastBuild (operations : List Operation) (p : Path) : Option Build :=
  (operations.reverse.findSome? (Operation.build? p)).getD none

lemma lastNeeds_append (operations : List Operation) (o : Operation) (p : Path) :
    lastNeeds (operations ++ [o]) p = (o.needs? p).getD (lastNeeds operations p) := by
  rw [lastNeeds, List.reverse_append, List.reverse_singleton, List.singleton_append,
    List.findSome?_cons]
  cases o.needs? p <;> rfl

lemma lastBuild_append (operations : List Operation) (o : Operation) (p : Path) :
    lastBuild (operations ++ [o]) p = (o.build? p).getD (lastBuild operations p) := by
  rw [lastBuild, List.reverse_append, List.reverse_singleton, List.singleton_append,
    List.findSome?_cons]
  cases o.build? p <;> rfl

lemma ofOperations_append (operations : List Operation) (o : Operation) :
    ofOperations (operations ++ [o]) = (ofOperations operations).apply o := by
  rw [ofOperations, List.foldl_append]
  rfl

/-! ## Edges -/

lemma InStep.apply {g : Graph} (h : g.InStep) (o : Operation) : (g.apply o).InStep := by
  cases o with
  | set p needed => exact h.setDependencies p needed
  | build p b => exact h.recordBuild p b.input b.output b.metadata
  | remove p => exact h.remove p
  | clear => exact inStep_empty

lemma inStep_ofOperations (operations : List Operation) : (ofOperations operations).InStep := by
  induction operations using List.reverseRecOn with
  | nil => exact inStep_empty
  | append_singleton operations o ih =>
      rw [ofOperations_append]
      exact ih.apply o

/-- An operation changes what it says something about, and no other needs. -/
lemma needs_apply {g : Graph} {o : Operation} {p q : Path} :
    (g.apply o).Needs p q
      ↔ match o.needs? p with
        | some needed => ∃ d ∈ needed, compare d q = .eq
        | none => g.Needs p q := by
  cases o with
  | set a needed =>
      simp only [apply, Operation.needs?]
      rw [needs_setDependencies]
      split_ifs <;> rfl
  | build a b => exact needs_recordBuild
  | remove a =>
      simp only [apply, Operation.needs?]
      rw [needs_remove]
      split_ifs with h <;> simp [h]
  | clear => simp [apply, Operation.needs?, empty, Needs, node?]

lemma needs_ofOperations (operations : List Operation) {p q : Path} :
    (ofOperations operations).Needs p q ↔ ∃ d ∈ lastNeeds operations p, compare d q = .eq := by
  induction operations using List.reverseRecOn with
  | nil => simp [ofOperations, lastNeeds, empty, Needs, node?]
  | append_singleton operations o ih =>
      rw [ofOperations_append, needs_apply, lastNeeds_append]
      cases o.needs? p with
      | none => exact ih
      | some needed => rfl

lemma among_iff {paths : List Path} {q : Path} :
    Reach.among paths q = true ↔ ∃ d ∈ paths, compare d q = .eq := by
  simp only [Reach.among_iff, Path.compare_comm (p := q)]

/-- The check of the edges succeeds when both directions agree. -/
lemma InStep.isConsistent {g : Graph} (h : g.InStep) : g.isConsistent = true := by
  rw [Graph.isConsistent, List.all_eq_true]
  rintro ⟨p, n⟩ hmem
  have hn : g.node? p = some n :=
    Std.TreeMap.getElem?_eq_some_iff_exists_compare_eq_eq_and_mem_toList.2
      ⟨p, Path.compare_self p, hmem⟩
  rw [Bool.and_eq_true, List.all_eq_true, List.all_eq_true]
  constructor
  · intro d hd
    obtain ⟨m, hm, hp⟩ := (h p d).1 ⟨n, hn, PathSet.mem_iff_toList.2 ⟨d, hd, Path.compare_self d⟩⟩
    rw [hm, Option.any_some]
    exact Std.TreeSet.contains_iff_mem.2 hp
  · intro d hd
    obtain ⟨m, hm, hp⟩ := (h d p).2 ⟨n, hn, PathSet.mem_iff_toList.2 ⟨d, hd, Path.compare_self d⟩⟩
    rw [hm, Option.any_some]
    exact Std.TreeSet.contains_iff_mem.2 hp

/-! ## Builds -/

/-- The file has this build; without a node it has none. -/
def Carries (g : Graph) (p : Path) (b : Option Build) : Prop :=
  match g.node? p with
  | some n => n.Carries b
  | none => b = none

variable {g : Graph} {p : Path} {b : Option Build}

lemma Carries.ensure (h : g.Carries p b) (a : Path) : (g.ensure a).Carries p b := by
  rw [Carries] at h ⊢
  rw [node?_ensure]
  split_ifs with ha
  · rw [← node?_congr g ha.1, ha.2] at h
    subst h
    exact ⟨rfl, rfl, rfl⟩
  · exact h

lemma Carries.adjust (h : g.Carries p b) {f : GraphNode → GraphNode} {a : Path}
    (hf : compare a p = .eq → ∀ n : GraphNode, n.Carries b → (f n).Carries b) :
    (g.adjust a f).Carries p b := by
  rw [Carries] at h ⊢
  rw [node?_adjust]
  split_ifs with ha
  · cases hn : g.node? p with
    | none =>
        rw [hn] at h
        exact h
    | some n =>
        rw [hn] at h
        exact hf ha n h
  · exact h

/-- Pruning takes no build away: an orphan was never built. -/
lemma Carries.pruneOrphan (h : g.Carries p b) (a : Path) : (g.pruneOrphan a).Carries p b := by
  rw [Carries] at h ⊢
  rw [node?_pruneOrphan]
  split_ifs with ha
  · obtain ⟨hsame, horphan⟩ := ha
    rw [node?_congr g hsame] at horphan
    cases hn : g.node? p with
    | none =>
        rw [hn] at h
        exact h
    | some n =>
        rw [hn] at h horphan
        simp only [Option.any_some, isOrphan, Bool.and_eq_true, Option.isNone_iff_eq_none]
          at horphan
        cases b with
        | none => rfl
        | some b => cases h.1.symm.trans horphan.1.1
  · exact h

lemma Carries.dropEdge (h : g.Carries p b) (a d : Path) : (dropEdge a g d).Carries p b :=
  (h.adjust fun _ _ hn => by cases b <;> exact hn).pruneOrphan d

lemma Carries.addEdge (h : g.Carries p b) (a d : Path) : (addEdge a g d).Carries p b :=
  (h.ensure d).adjust fun _ _ hn => by cases b <;> exact hn

lemma Carries.foldl {f : Graph → Path → Graph}
    (hf : ∀ {g : Graph} (d : Path), g.Carries p b → (f g d).Carries p b) (ds : List Path)
    (h : g.Carries p b) : (ds.foldl f g).Carries p b := by
  induction ds generalizing g with
  | nil => exact h
  | cons d ds ih => exact ih (hf d h)

/-- Setting what a file needs leaves all builds as they are. -/
lemma Carries.setDependencies (h : g.Carries p b) (a : Path) (needed : List Path) :
    (g.setDependencies a needed).Carries p b := by
  have hdropped := Carries.foldl (f := Graph.dropEdge a) (fun d hd => hd.dropEdge a d)
    (g.dropped a needed) (h.ensure a)
  have hadded := Carries.foldl (f := Graph.addEdge a) (fun d hd => hd.addEdge a d)
    (PathSet.ofPaths needed).toList hdropped
  rw [setDependencies_eq]
  exact hadded.adjust fun _ _ hn => by cases b <;> exact hn

lemma Carries.recordBuild (h : g.Carries p b) {a : Path} (input output : Digest)
    (metadata : Option Json) (ha : ¬compare a p = .eq) :
    (g.recordBuild a input output metadata).Carries p b :=
  (h.ensure a).adjust fun hsame => absurd hsame ha

lemma carries_recordBuild (g : Graph) {a : Path} (built : Build) (ha : compare a p = .eq) :
    (g.recordBuild a built.input built.output built.metadata).Carries p (some built) := by
  have hsome := node?_ensure_self_ne_none g a
  rw [node?_congr _ ha] at hsome
  obtain ⟨n, hn⟩ := Option.ne_none_iff_exists'.1 hsome
  rw [Carries, Graph.recordBuild, node?_adjust, if_pos ha, hn]
  exact ⟨rfl, rfl, rfl⟩

lemma Carries.remove (h : g.Carries p b) {a : Path} (ha : ¬compare a p = .eq) :
    (g.remove a).Carries p b :=
  ((h.setDependencies a []).adjust fun hsame => absurd hsame ha).pruneOrphan a

lemma carries_remove (g : Graph) {a : Path} (ha : compare a p = .eq) :
    (g.remove a).Carries p none := by
  have hforgotten : ((g.setDependencies a []).adjust a forgetBuild).Carries p none := by
    rw [Carries, node?_adjust, if_pos ha]
    cases (g.setDependencies a []).node? p with
    | none => rfl
    | some n => exact ⟨rfl, rfl, rfl⟩
  exact hforgotten.pruneOrphan a

/-- An operation changes the build that it says something about, and no other. -/
lemma Carries.apply (h : g.Carries p b) (o : Operation) :
    (g.apply o).Carries p ((o.build? p).getD b) := by
  cases o with
  | set a needed => exact h.setDependencies a needed
  | build a built =>
      simp only [Operation.build?]
      split_ifs with ha
      · exact carries_recordBuild g built ha
      · exact h.recordBuild _ _ _ ha
  | remove a =>
      simp only [Operation.build?]
      split_ifs with ha
      · exact carries_remove g ha
      · exact h.remove ha
  | clear => exact rfl

lemma carries_ofOperations (operations : List Operation) (p : Path) :
    (ofOperations operations).Carries p (lastBuild operations p) := by
  induction operations using List.reverseRecOn with
  | nil => exact rfl
  | append_singleton operations o ih =>
      rw [ofOperations_append, lastBuild_append]
      exact ih.apply o

/-! ## Answers -/

/-- **The graph answers as plain maps do.**  After any operations a file needs what was last set for
it, is needed by the files for which it was last set, and has the build that was last recorded; what
is listed is in order, and both directions of the edges agree. -/
theorem answers_ofOperations (operations : List Operation) (p : Path) :
    (∀ q, Reach.among ((ofOperations operations).dependencies p) q
        = Reach.among (lastNeeds operations p) q)
      ∧ (∀ q, Reach.among ((ofOperations operations).dependents p) q
        = Reach.among (lastNeeds operations q) p)
      ∧ (ofOperations operations).Carries p (lastBuild operations p)
      ∧ (ofOperations operations).isConsistent = true
      ∧ ((ofOperations operations).dependencies p).Pairwise (compare · · = .lt)
      ∧ ((ofOperations operations).dependents p).Pairwise (compare · · = .lt) := by
  have hstep := inStep_ofOperations operations
  refine ⟨fun q => ?_, fun q => ?_, carries_ofOperations operations p, hstep.isConsistent, ?_, ?_⟩
  · rw [Bool.eq_iff_iff, among_iff, among_iff, ← needs_iff_dependencies, needs_ofOperations]
  · rw [Bool.eq_iff_iff, among_iff, among_iff, ← neededBy_iff_dependents, ← hstep q p,
      needs_ofOperations]
  · rw [dependencies]
    cases (ofOperations operations).node? p with
    | none => exact List.Pairwise.nil
    | some n => exact Std.TreeSet.ordered_toList
  · rw [dependents]
    cases (ofOperations operations).node? p with
    | none => exact List.Pairwise.nil
    | some n => exact Std.TreeSet.ordered_toList

end Graph
end Rebuild
