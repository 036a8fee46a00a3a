import Rebuild.Proofs.Elimination.Edges
import Rebuild.Proofs.Graph.Search

/-!
# The worklist of an elimination

Marking works off a queue of units, and a symbol can be marked when its unit is still to be met, when
it waits in the queue, or when it was worked off long ago.  What is marked in the end does not depend
on that: it is what the rule `Program.used` says of the reachable units.

* **Invariant.**  `Program.Follows`: the units that were met are those that are worked off and those
  in the queue, and what is marked is what the former call for.  The roots establish it
  (`follows_roots`), working off one unit keeps it (`Follows.pop`), so it holds at the end
  (`follows_markQueued`).
* **Search.**  Units are met in the order of a breadth-first search (`visited_markQueued`).
* **Endpoint.**  `visited_mark`, `mem_used_mark` and `unresolved_mark`.
-/

namespace Rebuild

namespace Program

variable {p : Program} {m : Marking} {done : List String} {id symbol : String}

/-! ## The rule -/

/-- The reachable units, nearest first. -/
def reachable (p : Program) : List String := Reach.order (targets p.imports) p.ids p.roots

/-- The symbols of a unit that are used: of a root all exports, and otherwise those that a reachable
unit requests. -/
def used (p : Program) (imports : ImportMap) (reachable : List String) (id : String) : Names :=
  match p.unit? id with
  | none => ∅
  | some u =>
    if id ∈ p.roots then u.exports
    else u.exports.filter (requested imports reachable id).contains

/-- The imports of reachable units from unknown ones. -/
def unresolved (p : Program) (imports : ImportMap) (reachable : List String) : List String :=
  reachable.flatMap fun unit =>
    ((targets imports unit).filter fun target => !p.isKnown target).map fun target =>
      unit ++ "->" ++ target

lemma isKnown_iff : p.isKnown id = true ↔ id ∈ p.ids := by
  simp [isKnown, ids]

lemma isKnown_of_unit? {u : CompileUnit} (h : p.unit? id = some u) : p.isKnown id = true :=
  isKnown_iff.2 (mem_ids_of_unit? h)

lemma isKnown_of_unit?_eq_none (h : p.unit? id = none) : p.isKnown id = false := by
  rw [unit?, List.find?_eq_none] at h
  simpa [isKnown] using h

lemma among_ids : Reach.among p.ids id = p.isKnown id := by
  rw [Bool.eq_iff_iff, Reach.among_iff_mem, isKnown_iff]

lemma mem_used_iff {imports : ImportMap} : symbol ∈ p.used imports done id
    ↔ ∃ u, p.unit? id = some u ∧ symbol ∈ u.exports
      ∧ (id ∈ p.roots ∨ symbol ∈ requested imports done id) := by
  cases hunit : p.unit? id with
  | none => simp [used, hunit]
  | some u =>
      by_cases hroot : id ∈ p.roots
      · simp [used, hunit, hroot]
      · simp [used, hunit, hroot, Std.TreeSet.contains_iff_mem]

/-! ## One unit

What following imports adds to the four parts of a marking. -/

@[simp] lemma visit_used (m : Marking) (id : String) : (m.visit id).used = m.used := by
  rw [Marking.visit]
  split_ifs <;> rfl

@[simp] lemma visit_unresolved (m : Marking) (id : String) :
    (m.visit id).unresolved = m.unresolved := by
  rw [Marking.visit]
  split_ifs <;> rfl

/-- The units `found` are met and queued. -/
structure Meets (m m' : Marking) (found : List String) : Prop where
  visited : m'.visited = m.visited ++ found
  queue : m'.queue = m.queue ++ found

lemma meets_visit (m : Marking) (id : String) :
    Meets m (m.visit id) (Reach.fresh m.visited [id]) := by
  rw [Marking.visit, Reach.fresh]
  by_cases h : id ∈ m.visited
  · rw [if_pos (List.contains_iff_mem.2 h), if_pos (Reach.among_iff_mem.2 h)]
    exact ⟨(List.append_nil _).symm, (List.append_nil _).symm⟩
  · rw [if_neg (mt List.contains_iff_mem.1 h), if_neg (mt Reach.among_iff_mem.1 h)]
    exact ⟨rfl, rfl⟩

lemma Meets.trans {m' m'' : Marking} {xs ys : List String} (h : Meets m m' xs)
    (h' : Meets m' m'' ys) : Meets m m'' (xs ++ ys) where
  visited := by rw [h'.visited, h.visited, List.append_assoc]
  queue := by rw [h'.queue, h.queue, List.append_assoc]

lemma meets_follow (p : Program) (id : String) (m : Marking) (edge : String × Names) :
    Meets m (p.follow id m edge) (Reach.fresh m.visited ([edge.1].filter (Reach.among p.ids))) := by
  rw [follow]
  split
  · rename_i hunit
    have hnone : [edge.1].filter (Reach.among p.ids) = [] := by
      simp [among_ids, isKnown_of_unit?_eq_none hunit]
    rw [hnone]
    exact ⟨(List.append_nil _).symm, (List.append_nil _).symm⟩
  · rename_i hunit
    have hsome : [edge.1].filter (Reach.among p.ids) = [edge.1] := by
      simp [among_ids, isKnown_of_unit? hunit]
    rw [hsome]
    exact ⟨(meets_visit _ _).visited, (meets_visit _ _).queue⟩

/-- **Following imports meets the known targets that are new**, each once. -/
lemma meets_foldl_follow (p : Program) (id : String) (edges : List (String × Names)) (m : Marking) :
    Meets m (edges.foldl (p.follow id) m)
      (Reach.fresh m.visited ((edges.map Prod.fst).filter (Reach.among p.ids))) := by
  induction edges generalizing m with
  | nil => exact ⟨(List.append_nil _).symm, (List.append_nil _).symm⟩
  | cons edge edges ih =>
      have hfirst := p.meets_follow id m edge
      have hrest := ih (p.follow id m edge)
      rw [hfirst.visited] at hrest
      rw [List.foldl_cons, List.map_cons, ← List.singleton_append, List.filter_append,
        Reach.fresh_append]
      exact hfirst.trans hrest

lemma unresolved_foldl_follow (edges : List (String × Names)) (m : Marking) :
    (edges.foldl (p.follow id) m).unresolved = m.unresolved
      ++ ((edges.map Prod.fst).filter fun target => !p.isKnown target).map fun target =>
        id ++ "->" ++ target := by
  induction edges generalizing m with
  | nil => exact (List.append_nil _).symm
  | cons edge edges ih =>
      rw [List.foldl_cons, ih, follow]
      split
      · rename_i hunit
        simp [isKnown_of_unit?_eq_none hunit]
      · rename_i hunit
        simp [isKnown_of_unit? hunit]

lemma mem_getD_request {t : ImportTable} {target : String} {names : Names} :
    symbol ∈ (t.request target names).getD id ∅
      ↔ symbol ∈ t.getD id ∅ ∨ (target = id ∧ symbol ∈ names) := by
  rw [← ImportTable.requests_iff, ImportTable.requests_request, ImportTable.requests_iff]

/-- Following an import marks what it requests and its target exports. -/
lemma mem_used_follow {unit : String} (m : Marking) (edge : String × Names) :
    symbol ∈ (p.follow unit m edge).used.getD id ∅ ↔ symbol ∈ m.used.getD id ∅
      ∨ (edge.1 = id ∧ symbol ∈ edge.2 ∧ ∃ u, p.unit? id = some u ∧ symbol ∈ u.exports) := by
  rw [follow]
  split
  · rename_i hunit
    refine (or_iff_left ?_).symm
    rintro ⟨rfl, -, u, hu, -⟩
    rw [hunit] at hu
    cases hu
  · rename_i u hunit
    rw [visit_used, mem_getD_request, Names.mem_filter, Std.TreeSet.contains_iff_mem]
    refine or_congr_right (and_congr_right ?_)
    rintro rfl
    simp [hunit]

lemma mem_used_markRoot (m : Marking) (root : String) :
    symbol ∈ (p.markRoot m root).used.getD id ∅ ↔ symbol ∈ m.used.getD id ∅
      ∨ (root = id ∧ ∃ u, p.unit? id = some u ∧ symbol ∈ u.exports) := by
  rw [markRoot]
  split
  · rename_i hunit
    refine (or_iff_left ?_).symm
    rintro ⟨rfl, u, hu, -⟩
    rw [hunit] at hu
    cases hu
  · rename_i u hunit
    rw [visit_used, mem_getD_request]
    refine or_congr_right (and_congr_right ?_)
    rintro rfl
    simp [hunit]

/-! ## The queue -/

/-- What was met is what is worked off, `done`, with the queue, and what is marked is what the rule
says if nothing else was reachable. -/
structure Follows (p : Program) (done : List String) (m : Marking) : Prop where
  visited : m.visited = done ++ m.queue
  used : ∀ id symbol, symbol ∈ m.used.getD id ∅ ↔ symbol ∈ p.used p.imports done id
  unresolved : m.unresolved = p.unresolved p.imports done

lemma map_fst_toList_eq_targets (imports : ImportMap) (id : String) :
    (imports.getD id ∅).toList.map Prod.fst = targets imports id :=
  Std.TreeMap.map_fst_toList_eq_keys

/-- What an import table requests of a unit. -/
lemma exists_mem_toList_iff {t : ImportTable} :
    (∃ edge ∈ t.toList, edge.1 = id ∧ symbol ∈ edge.2) ↔ symbol ∈ t.getD id ∅ := by
  rw [← ImportTable.requests_iff, ImportTable.Requests]
  constructor
  · rintro ⟨⟨target, names⟩, hedge, rfl, hsymbol⟩
    exact ⟨names, Std.TreeMap.mem_toList_iff_getElem?_eq_some.1 hedge, hsymbol⟩
  · rintro ⟨names, hnames, hsymbol⟩
    exact ⟨(id, names), Std.TreeMap.mem_toList_iff_getElem?_eq_some.2 hnames, rfl, hsymbol⟩

/-- **Working off one unit keeps the invariant.** -/
lemma Follows.pop {rest : List String} (h : p.Follows done m) (hqueue : m.queue = id :: rest) :
    p.Follows (done ++ [id])
      ((p.imports.getD id ∅).toList.foldl (p.follow id) { m with queue := rest }) where
  visited := by
    have hmeets := p.meets_foldl_follow id (p.imports.getD id ∅).toList
      { m with queue := rest }
    rw [hmeets.visited, hmeets.queue, h.visited, hqueue]
    simp
  used unit symbol := by
    rw [foldl_iff_or (fun m : Marking => symbol ∈ m.used.getD unit ∅) _ mem_used_follow]
    have hpopped : (∃ edge ∈ (p.imports.getD id ∅).toList, edge.1 = unit ∧ symbol ∈ edge.2
          ∧ ∃ u, p.unit? unit = some u ∧ symbol ∈ u.exports)
        ↔ (∃ u, p.unit? unit = some u ∧ symbol ∈ u.exports)
          ∧ symbol ∈ (p.imports.getD id ∅).getD unit ∅ := by
      rw [← exists_mem_toList_iff]
      grind
    rw [hpopped, h.used unit symbol, mem_used_iff, mem_used_iff, mem_requested_iff,
      mem_requested_iff]
    simp only [List.mem_append, List.mem_singleton]
    grind
  unresolved := by
    rw [unresolved_foldl_follow, h.unresolved, map_fst_toList_eq_targets]
    simp [Program.unresolved]

/-- **The invariant holds when the queue is worked off**, and then all that was met is done. -/
lemma follows_markQueued (h : p.Follows done m) :
    p.Follows (p.markQueued p.imports m).visited (p.markQueued p.imports m) := by
  fun_induction markQueued p p.imports m generalizing done with
  | case1 m hqueue =>
      have hdone : m.visited = done := by
        rw [h.visited, hqueue, List.append_nil]
      rwa [hdone]
  | case2 m id rest hqueue hlt ih => exact ih (h.pop hqueue)

/-- **Units are met as a breadth-first search finds them.** -/
lemma visited_markQueued (m : Marking) : (p.markQueued p.imports m).visited
    = Reach.explore (targets p.imports) p.ids m.queue m.visited := by
  fun_induction markQueued p p.imports m with
  | case1 m hqueue => rw [hqueue, Reach.explore]
  | case2 m id rest hqueue hlt ih =>
      have hmeets := p.meets_foldl_follow id (p.imports.getD id ∅).toList
        { m with queue := rest }
      rw [ih, hmeets.visited, hmeets.queue, map_fst_toList_eq_targets, hqueue, Reach.explore_cons]

/-! ## The roots -/

lemma meets_markRoot {root : String} (h : p.isKnown root = true) (m : Marking) :
    Meets m (p.markRoot m root) (Reach.fresh m.visited [root]) := by
  rw [markRoot]
  split
  · rename_i hunit
    rw [isKnown_of_unit?_eq_none hunit] at h
    cases h
  · exact ⟨(meets_visit _ _).visited, (meets_visit _ _).queue⟩

lemma meets_foldl_markRoot {roots : List String} (h : ∀ root ∈ roots, p.isKnown root = true)
    (m : Marking) : Meets m (roots.foldl p.markRoot m) (Reach.fresh m.visited roots) := by
  induction roots generalizing m with
  | nil => exact ⟨(List.append_nil _).symm, (List.append_nil _).symm⟩
  | cons root roots ih =>
      have hfirst := meets_markRoot (h root List.mem_cons_self) m
      have hrest := ih (fun other hother => h other (List.mem_cons_of_mem _ hother))
        (p.markRoot m root)
      rw [hfirst.visited] at hrest
      rw [List.foldl_cons, ← List.singleton_append, Reach.fresh_append]
      exact hfirst.trans hrest

lemma unresolved_foldl_markRoot (roots : List String) (m : Marking) :
    (roots.foldl p.markRoot m).unresolved = m.unresolved := by
  induction roots generalizing m with
  | nil => rfl
  | cons root roots ih =>
      rw [List.foldl_cons, ih, markRoot]
      split
      · rfl
      · exact visit_unresolved _ _

lemma isKnown_of_mem_roots (h : id ∈ p.roots) : p.isKnown id = true := by
  rw [roots, Std.TreeSet.mem_toList, Std.TreeSet.mem_ofList, List.contains_iff_mem,
    List.mem_append] at h
  rcases h with hflagged | hentry
  · obtain ⟨u, hu, rfl⟩ := List.mem_map.1 hflagged
    exact isKnown_iff.2 (List.mem_map_of_mem (List.mem_filter.1 hu).1)
  · exact (List.mem_filter.1 hentry).2

/-- **The roots establish the invariant**: they are met, and nothing is worked off. -/
lemma follows_roots (p : Program) : p.Follows [] (p.roots.foldl p.markRoot {}) where
  visited := by
    have hmeets := meets_foldl_markRoot (fun _ => isKnown_of_mem_roots (p := p)) {}
    rw [hmeets.visited, hmeets.queue]
    rfl
  used id symbol := by
    rw [foldl_iff_or (fun m : Marking => symbol ∈ m.used.getD id ∅) _ mem_used_markRoot,
      mem_used_iff]
    simp [requested]
    grind
  unresolved := unresolved_foldl_markRoot p.roots {}

/-! ## What is marked -/

/-- **The reachable units are met**, nearest first. -/
lemma visited_mark (p : Program) : p.mark.visited = p.reachable := by
  have hmeets := meets_foldl_markRoot (fun _ => isKnown_of_mem_roots (p := p)) {}
  rw [mark, visited_markQueued, hmeets.visited, hmeets.queue]
  rfl

/-- **The symbols that are used are marked**, and no others. -/
lemma mem_used_mark (p : Program) :
    symbol ∈ p.mark.used.getD id ∅ ↔ symbol ∈ p.used p.imports p.reachable id := by
  rw [← visited_mark]
  exact (follows_markQueued p.follows_roots).used id symbol

/-- **The imports of reachable units from unknown ones are noted**, as they are met. -/
lemma unresolved_mark (p : Program) : p.mark.unresolved = p.unresolved p.imports p.reachable := by
  rw [← visited_mark]
  exact (follows_markQueued p.follows_roots).unresolved

end Program
end Rebuild
