import Mathlib.Order.Lattice.Nat
import Rebuild.Proofs.Graph.Refinement

/-!
# The nearest first

A search finds the members in the order of their distance from the starts, and each once.

* **Distance.**  `Leads n x` says that `x` is `n` steps of `next` away from a start, and `distance` is
  the least such `n`.
* **Layers.**  While the search goes on, what waits in the queue lies in two layers next to each other,
  and all that is nearer has been found.  `Layered.step` is one turn of the search.
* **Endpoint.**  `affected_nearest_first`, for every graph there is: the changed files come first, then
  the files that need them along chains, the short chains before the long ones.
-/

namespace Rebuild

namespace Reach

variable {α : Type} [Ord α]

/-! ## Distance -/

/-- `x` is `n` steps away from a start. -/
def Leads (next : α → List α) (starts : List α) : Nat → α → Prop
  | 0, x => among starts x = true
  | n + 1, x => ∃ y, Leads next starts n y ∧ among (next y) x = true

/-- The least number of steps from a start. -/
noncomputable def distance (next : α → List α) (starts : List α) (x : α) : Nat :=
  sInf {n | Leads next starts n x}

variable {next : α → List α} {starts members : List α} {x y z : α} {n : Nat}

lemma distance_le (h : Leads next starts n x) : distance next starts x ≤ n := Nat.sInf_le h

lemma leads_distance (h : ∃ n, Leads next starts n x) :
    Leads next starts (distance next starts x) x := Nat.sInf_mem h

/-- Fresh ones are no spellings of each other. -/
lemma pairwise_fresh [Std.OrientedOrd α] (seen ys : List α) :
    (fresh seen ys).Pairwise fun x y => compare x y ≠ .eq := by
  induction ys generalizing seen with
  | nil => exact List.Pairwise.nil
  | cons y ys ih =>
      rw [fresh]
      split_ifs
      · exact ih seen
      · refine List.pairwise_cons.2 ⟨fun x hx heq => ?_, ih _⟩
        have hseen := (mem_of_mem_fresh hx).2
        rw [among_append, Bool.or_eq_false_iff] at hseen
        have hx : among [y] x = true :=
          among_iff.2 ⟨y, List.mem_singleton_self y, Std.OrientedCmp.eq_symm heq⟩
        rw [hx] at hseen
        exact absurd hseen.2 (by decide)

/-- With nothing seen, the fresh ones are the list without its repetitions. -/
lemma fresh_nil (xs : List α) : fresh [] xs = xs.eraseDupsBy fun x y => compare x y == .eq := by
  have hloop : ∀ (xs done : List α), List.eraseDupsBy.loop (fun x y => compare x y == .eq) xs done
      = done.reverse ++ fresh done.reverse xs := by
    intro xs
    induction xs with
    | nil => simp [List.eraseDupsBy.loop, fresh]
    | cons x xs ih =>
        intro done
        have hseen : among done.reverse x = done.any fun y => compare x y == .eq := by
          rw [among, List.any_reverse]
        rw [List.eraseDupsBy.loop, fresh, hseen]
        cases done.any fun y => compare x y == .eq <;> simp [ih]
  rw [List.eraseDupsBy, hloop]
  rfl

variable [Std.TransOrd α]

lemma Leads.congr (hxy : compare x y = .eq) (h : Leads next starts n x) : Leads next starts n y := by
  cases n with
  | zero => exact (among_congr hxy).symm.trans h
  | succ n =>
      obtain ⟨z, hz, hzx⟩ := h
      exact ⟨z, hz, (among_congr hxy).symm.trans hzx⟩

/-! ## Layers -/

/-- What holds between two turns of a search that has found `done` and then `queue`: whoever is `done`
has its successors among them, all are in the order of their distance, and the queue lies within one
step. -/
structure Layered (next : α → List α) (members starts done queue : List α) : Prop where
  found : ∀ x ∈ starts, among (done ++ queue) x = true
  leads : ∀ x ∈ done ++ queue, ∃ n, Leads next starts n x
  settled : ∀ x ∈ done, Settled next members (done ++ queue) x
  sorted : (done ++ queue).Pairwise fun x y => distance next starts x ≤ distance next starts y
  near : ∀ x ∈ queue, ∀ y ∈ queue, distance next starts y ≤ distance next starts x + 1

/-- `next` goes by the steps of its argument, and the universe holds all that it lists. -/
structure Covers (next : α → List α) (members : List α) : Prop where
  congr : ∀ x y, compare x y = .eq → next x = next y
  members : ∀ x, ∀ y ∈ next x, among members y = true

variable {done rest : List α}

/-- All that is no farther than the head of the queue has been found. -/
lemma Layered.among_of_leads (h : Layered next members starts done (x :: rest))
    (hcovers : Covers next members) (hz : Leads next starts n z)
    (hn : n ≤ distance next starts x) : among (done ++ x :: rest) z = true := by
  induction n generalizing z with
  | zero =>
      obtain ⟨s, hs, hzs⟩ := among_iff.1 hz
      rw [among_congr hzs]
      exact h.found s hs
  | succ n ih =>
      obtain ⟨y, hy, hyz⟩ := hz
      obtain ⟨y', hy', hyy'⟩ := among_iff.1 (ih hy (by omega))
      have hle : distance next starts y' ≤ n := distance_le (hy.congr hyy')
      -- The queue holds only what is as far as its head, so `y'` is done.
      have hdone : y' ∈ done := by
        rcases List.mem_append.1 hy' with hdone | hqueue
        · exact hdone
        · have hsorted := (List.pairwise_append.1 h.sorted).2.1
          rcases List.mem_cons.1 hqueue with rfl | hrest
          · omega
          · have := (List.pairwise_cons.1 hsorted).1 y' hrest
            omega
      rw [hcovers.congr y y' hyy'] at hyz
      obtain ⟨w, hw, hzw⟩ := among_iff.1 hyz
      rw [among_congr hzw]
      exact h.settled y' hdone w hw (hcovers.members y' w hw)

/-- What the head of the queue leads to for the first time is one step farther than the head. -/
lemma Layered.distance_of_mem_fresh (h : Layered next members starts done (x :: rest))
    (hcovers : Covers next members)
    (hz : z ∈ fresh (done ++ x :: rest) ((next x).filter (among members))) :
    (∃ n, Leads next starts n z) ∧ distance next starts z = distance next starts x + 1 := by
  obtain ⟨hmem, hseen⟩ := mem_of_mem_fresh hz
  have hx : Leads next starts (distance next starts x) x := leads_distance (h.leads x (by simp))
  have hlead : Leads next starts (distance next starts x + 1) z :=
    ⟨x, hx, among_of_mem (List.mem_of_mem_filter hmem)⟩
  refine ⟨⟨_, hlead⟩, ?_⟩
  have hle := distance_le hlead
  have hnot : ¬distance next starts z ≤ distance next starts x := by
    intro hnear
    rw [h.among_of_leads hcovers (leads_distance ⟨_, hlead⟩) hnear] at hseen
    exact absurd hseen (by decide)
  omega

/-- **One turn of the search**: the head of the queue is done, and what it leads to for the first time
goes to the end. -/
lemma Layered.step (h : Layered next members starts done (x :: rest)) (hcovers : Covers next members) :
    Layered next members starts (done ++ [x])
      (rest ++ fresh (done ++ x :: rest) ((next x).filter (among members))) := by
  have hfound := fun z => h.distance_of_mem_fresh (z := z) hcovers
  have hsettled := settled_append_fresh next members (done ++ x :: rest) x
  obtain ⟨found', leads', settled', sorted', near'⟩ := h
  generalize fresh (done ++ x :: rest) ((next x).filter (among members)) = found at hfound hsettled
  have hall : done ++ [x] ++ (rest ++ found) = done ++ x :: rest ++ found := by simp
  have hdone := (List.pairwise_append.1 sorted').2.2
  have hrest := (List.pairwise_cons.1 (List.pairwise_append.1 sorted').2.1).1
  constructor
  case found =>
      intro s hs
      rw [hall]
      exact among_append_left (found' s hs)
  case leads =>
      intro z hz
      rw [hall] at hz
      rcases List.mem_append.1 hz with hz | hz
      · exact leads' z hz
      · exact (hfound z hz).1
  case settled =>
      intro z hz
      rw [hall]
      rcases List.mem_append.1 hz with hz | hz
      · exact (settled' z hz).append
      · rwa [List.mem_singleton.1 hz]
  case sorted =>
      rw [hall]
      refine List.pairwise_append.2 ⟨sorted', ?_, ?_⟩
      · refine List.pairwise_of_forall_mem_list fun a ha b hb => ?_
        rw [(hfound a ha).2, (hfound b hb).2]
      · intro a ha b hb
        rw [(hfound b hb).2]
        rcases List.mem_append.1 ha with ha | ha
        · exact Nat.le_succ_of_le (hdone a ha x List.mem_cons_self)
        · exact near' x List.mem_cons_self a ha
  case near =>
      have hlow : ∀ a ∈ rest ++ found, distance next starts x ≤ distance next starts a := by
        intro a ha
        rcases List.mem_append.1 ha with ha | ha
        · exact hrest a ha
        · rw [(hfound a ha).2]
          exact Nat.le_succ _
      have hhigh : ∀ b ∈ rest ++ found, distance next starts b ≤ distance next starts x + 1 := by
        intro b hb
        rcases List.mem_append.1 hb with hb | hb
        · exact near' x List.mem_cons_self b (List.mem_cons_of_mem _ hb)
        · rw [(hfound b hb).2]
      intro a ha b hb
      have := hlow a ha
      have := hhigh b hb
      omega

/-- The starts lie in the first layer. -/
lemma layered_starts (next : α → List α) (members starts : List α) :
    Layered next members starts [] (fresh [] starts) := by
  have hzero : ∀ x ∈ fresh [] starts, Leads next starts 0 x :=
    fun x hx => among_of_mem (mem_of_mem_fresh hx).1
  have hdistance : ∀ x ∈ fresh [] starts, distance next starts x = 0 :=
    fun x hx => Nat.le_zero.1 (distance_le (hzero x hx))
  constructor
  case found => exact fun x hx => among_append_fresh [] hx
  case leads => exact fun x hx => ⟨0, hzero x hx⟩
  case settled => exact fun x hx => absurd hx List.not_mem_nil
  case sorted =>
      refine List.pairwise_of_forall_mem_list fun a ha b hb => ?_
      rw [hdistance a ha, hdistance b hb]
  case near =>
      intro a _ b hb
      rw [hdistance b hb]
      exact Nat.zero_le _

/-! ## What is found -/

/-- The search keeps what it has found in its place. -/
lemma isPrefix_explore (next : α → List α) (members queue seen : List α) :
    seen <+: explore next members queue seen := by
  fun_induction explore next members queue seen with
  | case1 seen => exact List.prefix_refl seen
  | case2 seen y rest found hfound ih => exact ih
  | case3 seen y rest found hfound hlt ih => exact (List.prefix_append seen found).trans ih

/-- Nothing is found under two spellings. -/
lemma pairwise_explore_ne {queue seen : List α} (h : seen.Pairwise fun x y => compare x y ≠ .eq) :
    (explore next members queue seen).Pairwise fun x y => compare x y ≠ .eq := by
  fun_induction explore next members queue seen with
  | case1 => exact h
  | case2 seen y rest found hfound ih => exact ih h
  | case3 seen y rest found hfound hlt ih =>
      refine ih (List.pairwise_append.2 ⟨h, pairwise_fresh seen _, fun x hx z hz heq => ?_⟩)
      have hnot := (mem_of_mem_fresh hz).2
      rw [among_congr (Std.OrientedCmp.eq_symm heq), among_of_mem hx] at hnot
      cases hnot

/-- What is found is in the order of its distance. -/
lemma Layered.pairwise_explore {queue seen : List α} (hcovers : Covers next members)
    (h : ∃ done, seen = done ++ queue ∧ Layered next members starts done queue) :
    (explore next members queue seen).Pairwise
      fun x y => distance next starts x ≤ distance next starts y := by
  fun_induction explore next members queue seen with
  | case1 seen =>
      obtain ⟨done, hseen, h⟩ := h
      rw [hseen]
      exact h.sorted
  | case2 seen y rest found hfound ih =>
      obtain ⟨done, rfl, h⟩ := h
      refine ih ⟨done ++ [y], by simp, ?_⟩
      have hnext := h.step hcovers
      rwa [show fresh (done ++ y :: rest) ((next y).filter (among members)) = [] from hfound,
        List.append_nil] at hnext
  | case3 seen y rest found hfound hlt ih =>
      obtain ⟨done, rfl, h⟩ := h
      exact ih ⟨done ++ [y], by simp [found], h.step hcovers⟩

/-- **The search goes by distance.** -/
theorem pairwise_order (hcovers : Covers next members) (starts : List α) :
    (order next members starts).Pairwise
      fun x y => distance next starts x ≤ distance next starts y :=
  Layered.pairwise_explore hcovers ⟨[], rfl, layered_starts next members starts⟩

end Reach

namespace Graph

variable {g : Graph} {p q c : Path} {n : Nat}

/-! ## Chains of needs -/

/-- `p` needs `c` along a chain of `n` needs. -/
def Chain (g : Graph) : Nat → Path → Path → Prop
  | 0, p, c => compare p c = .eq
  | n + 1, p, c => ∃ q, g.Needs p q ∧ Chain g n q c

/-- The length of the shortest chain from the file to a changed one. -/
noncomputable def distance (g : Graph) (changed : List Path) (p : Path) : Nat :=
  sInf {n | ∃ c ∈ changed, g.Chain n p c}

/-- Chains are what can be reached. -/
lemma exists_chain_iff : (∃ n, g.Chain n p c) ↔ ∃ q, g.Reaches p q ∧ compare q c = .eq := by
  constructor
  · rintro ⟨n, hn⟩
    induction n generalizing p with
    | zero => exact ⟨p, .refl, hn⟩
    | succ n ih =>
        obtain ⟨r, hpr, hrc⟩ := hn
        obtain ⟨q, hrq, hqc⟩ := ih hrc
        exact ⟨q, .head hpr hrq, hqc⟩
  · rintro ⟨q, hpq, hqc⟩
    induction hpq using Relation.ReflTransGen.head_induction_on with
    | refl => exact ⟨0, hqc⟩
    | @head p r hpr _ ih =>
        obtain ⟨n, hn⟩ := ih
        exact ⟨n + 1, r, hpr, hn⟩

/-- The walk over reverse edges follows the chains from their ends. -/
lemma leads_iff_chain (h : g.InStep) (changed : List Path) :
    Reach.Leads g.dependents changed n p ↔ ∃ c ∈ changed, g.Chain n p c := by
  induction n generalizing p with
  | zero => exact Reach.among_iff
  | succ n ih =>
      constructor
      · rintro ⟨q, hq, hqp⟩
        obtain ⟨c, hc, hqc⟩ := ih.1 hq
        exact ⟨c, hc, q, (h p q).2 (neededBy_iff_dependents.2 (among_iff.1 hqp)), hqc⟩
      · rintro ⟨c, hc, q, hpq, hqc⟩
        exact ⟨q, ih.2 ⟨c, hc, hqc⟩, among_iff.2 (neededBy_iff_dependents.1 ((h p q).1 hpq))⟩

lemma distance_eq (h : g.InStep) (changed : List Path) (p : Path) :
    g.distance changed p = Reach.distance g.dependents changed p := by
  rw [distance, Reach.distance]
  simp only [leads_iff_chain h]

lemma covers_allDependents (g : Graph) : Reach.Covers g.dependents g.allDependents where
  congr x y hxy := by
    rw [dependents, dependents, node?_congr g hxy]
  members x y hy := by
    have hneeded : g.NeededBy x y := neededBy_iff_dependents.2 ⟨y, hy, Path.compare_self y⟩
    exact among_allDependents.2 ⟨x, hneeded⟩

/-! ## All graphs -/

/-- The graphs there are: new ones, those of any nodes, and what operations and repair make of them. -/
inductive Made : Graph → Prop where
  | new : Made empty
  | ofNodes (nodes : PathMap GraphNode) : Made (ofNodes nodes)
  | apply {g : Graph} (h : Made g) (o : Operation) : Made (g.apply o)
  | rebuild {g : Graph} (h : Made g) : Made g.rebuildDependents

lemma Made.inStep (h : g.Made) : g.InStep := by
  induction h with
  | new => exact inStep_empty
  | ofNodes nodes => exact inStep_ofNodes nodes
  | apply _ o ih => exact ih.apply o
  | @rebuild g _ _ => exact inStep_ofNodes g.nodes

/-- **Closure queries are exact, and the nearest come first.**  What is affected is listed under one
spelling each, the changed files before all others in the order in which they are named; it is all that
needs a changed file along a chain, and the shorter the chain the earlier. -/
theorem affected_nearest_first (h : g.Made) (changed : List Path) :
    (g.affected changed).Pairwise (fun p q => compare p q ≠ .eq)
      ∧ (changed.eraseDupsBy fun p q => compare p q == .eq) <+: g.affected changed
      ∧ (∀ p, Reach.among (g.affected changed) p = true ↔ ∃ c ∈ changed, ∃ n, g.Chain n p c)
      ∧ (g.affected changed).Pairwise fun p q => g.distance changed p ≤ g.distance changed q := by
  have hstep := h.inStep
  refine ⟨Reach.pairwise_explore_ne (Reach.pairwise_fresh [] changed), ?_, fun p => ⟨fun hp => ?_, ?_⟩,
    ?_⟩
  · rw [← Reach.fresh_nil]
    exact Reach.isPrefix_explore _ _ _ _
  · obtain ⟨q, hq, hpq⟩ := Reach.among_iff.1 hp
    obtain ⟨c, hc, hqc⟩ := exists_reaches_of_mem_affected hstep hq
    obtain ⟨n, hn⟩ := exists_chain_iff.2 ⟨c, hqc, Path.compare_self c⟩
    obtain ⟨c', hc', hn'⟩ := (leads_iff_chain hstep changed).1
      (((leads_iff_chain hstep changed).2 ⟨c, hc, hn⟩).congr (Path.compare_comm.1 hpq))
    exact ⟨c', hc', n, hn'⟩
  · rintro ⟨c, hc, n, hn⟩
    obtain ⟨q, hpq, hqc⟩ := exists_chain_iff.1 ⟨n, hn⟩
    exact among_affected hstep hpq (Reach.among_iff.2 ⟨c, hc, hqc⟩)
  · simp only [distance_eq hstep]
    exact Reach.pairwise_order (covers_allDependents g) changed

/-! ### A cycle -/

namespace Cyclic

/-- A node that claims to be needed by a file that does not need it, and needs one without a node. -/
def nodes : PathMap GraphNode :=
  PathMap.put ∅ ⟨"a"⟩ {
    path := ⟨"a"⟩
    dependencies := PathSet.collect [⟨"b"⟩]
    dependents := PathSet.collect [⟨"z"⟩] }

/-- `a` and `b` need each other, and `c` needs `b` and itself. -/
def graph : Graph :=
  ((ofNodes nodes).apply (.set ⟨"b"⟩ [⟨"a"⟩])).apply (.set ⟨"c"⟩ [⟨"b"⟩, ⟨"c"⟩])

/-- One file is named twice, and the other one has no node. -/
def changed : List Path := [⟨"a"⟩, ⟨"x"⟩, ⟨"a"⟩]

lemma made : graph.Made := ((Made.ofNodes nodes).apply _).apply _

lemma chain : graph.Chain 2 ⟨"c"⟩ ⟨"a"⟩ := by
  have hcb : ⟨"b"⟩ ∈ graph.dependencies ⟨"c"⟩ := by decide +kernel
  have hba : ⟨"a"⟩ ∈ graph.dependencies ⟨"b"⟩ := by decide +kernel
  have hneeds : ∀ {p q : Path}, q ∈ graph.dependencies p → graph.Needs p q :=
    fun hq => needs_iff_dependencies.2 ⟨_, hq, Path.compare_self _⟩
  exact ⟨_, hneeds hcb, _, hneeds hba, Path.compare_self _⟩

end Cyclic

open Cyclic in
/-- On a cycle, with a repeated file and an unknown one: `c` is affected through `b`, and comes after
the files that are nearer. -/
theorem affected_nearest_first_cyclic : graph.Made
    ∧ [⟨"a"⟩, ⟨"x"⟩] <+: graph.affected changed
    ∧ Reach.among (graph.affected changed) ⟨"c"⟩ = true
    ∧ (graph.affected changed).Pairwise
      fun p q => graph.distance changed p ≤ graph.distance changed q := by
  obtain ⟨-, hbegins, hexact, hsorted⟩ := affected_nearest_first made changed
  have hdistinct : (changed.eraseDupsBy fun p q => compare p q == .eq) = [⟨"a"⟩, ⟨"x"⟩] := by decide
  rw [hdistinct] at hbegins
  exact ⟨made, hbegins, (hexact _).2 ⟨⟨"a"⟩, List.mem_cons_self, 2, chain⟩, hsorted⟩

end Graph
end Rebuild
