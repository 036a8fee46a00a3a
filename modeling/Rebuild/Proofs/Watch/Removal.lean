import Rebuild.Proofs.Cache.Archive
import Rebuild.Proofs.Graph.Nearest
import Rebuild.Watch.Session

/-!
# What a pass of a session is about

Before a pass, the session asks what the changes reach and then makes the cache forget the files that
went, one by one.  The order matters: forgetting a file takes away the edges that lead from it, and with
them what reaches others through it.

* **Forgetting.**  `Cache.Without` says what a removal takes away and that all else stays; removals
  compose (`Without.trans`), in any order.
* **Endpoint.**  `rebuildSet_exact`, at any point of any history of the cache.
-/

namespace Rebuild

/-- The last change of a file with this normal form was that it went. -/
def ChangeSet.Removes (changes : ChangeSet) (q : Path) : Prop :=
  ∃ r : Path, changes[r]? = some .remove ∧ compare r.normalize q = .eq

/-! ## Forgetting -/

namespace PathMap

variable {β : Type} {m m' m'' : PathMap β} {gone gone' : Path → Prop}

/-- The second table is the first one without the values at these paths. -/
def Without (m m' : PathMap β) (gone : Path → Prop) : Prop :=
  ∀ q : Path, (gone q → m'[q]? = none) ∧ (¬gone q → m'[q]? = m[q]?)

lemma without_self (m : PathMap β) (h : ∀ q, ¬gone q) : m.Without m gone :=
  fun q => ⟨fun hq => absurd hq (h q), fun _ => rfl⟩

lemma without_erase (m : PathMap β) (p : Path) : m.Without (m.erase p) fun q => compare p q = .eq := by
  intro q
  rw [Std.TreeMap.getElem?_erase]
  exact ⟨fun hq => if_pos hq, fun hq => if_neg hq⟩

lemma Without.trans (h : m.Without m' gone) (h' : m'.Without m'' gone') :
    m.Without m'' fun q => gone q ∨ gone' q := by
  intro q
  refine ⟨fun hq => ?_, fun hq => ?_⟩
  · by_cases hgone : gone' q
    · exact (h' q).1 hgone
    · rw [(h' q).2 hgone]
      exact (h q).1 (hq.resolve_right hgone)
  · obtain ⟨hfirst, hsecond⟩ := not_or.1 hq
    rw [(h' q).2 hsecond, (h q).2 hfirst]

end PathMap

namespace Cache

/-- The second cache is the first one without these files, except that others may need them. -/
structure Without (c c' : Cache) (gone : Path → Prop) : Prop where
  entries : c.entries.Without c'.entries gone
  records : c.records.Without c'.records gone
  needs : ∀ q d, c'.graph.Needs q d ↔ ¬gone q ∧ c.graph.Needs q d
  forgotten : ∀ q, gone q → c'.graph.Carries q none
  kept : ∀ q b, ¬gone q → c.graph.Carries q b → c'.graph.Carries q b

variable {c c' c'' : Cache} {gone gone' : Path → Prop}

lemma without_self (c : Cache) (h : ∀ q, ¬gone q) : c.Without c gone where
  entries := PathMap.without_self _ h
  records := PathMap.without_self _ h
  needs q _ := (and_iff_right (h q)).symm
  forgotten q hq := absurd hq (h q)
  kept _ _ _ hb := hb

lemma without_removeFile (c : Cache) (p : Path) :
    c.Without (c.removeFile p) fun q => compare p.normalize q = .eq where
  entries := PathMap.without_erase c.entries p.normalize
  records := PathMap.without_erase c.records p.normalize
  needs _ _ := by rw [graph_removeFile, Graph.needs_remove]
  forgotten _ hq := by
    have hforgotten := Graph.carries_remove c.graph hq
    rwa [← graph_removeFile] at hforgotten
  kept _ _ hq hb := by
    have hkept := hb.remove hq
    rwa [← graph_removeFile] at hkept

/-- What is forgotten first is not brought back by what is forgotten next. -/
lemma Without.trans (h : c.Without c' gone) (h' : c'.Without c'' gone') :
    c.Without c'' fun q => gone q ∨ gone' q where
  entries := h.entries.trans h'.entries
  records := h.records.trans h'.records
  needs q d := by rw [h'.needs, h.needs, not_or, and_left_comm, and_assoc]
  forgotten q hq := by
    by_cases hgone : gone' q
    · exact h'.forgotten q hgone
    · exact h'.kept q none hgone (h.forgotten q (hq.resolve_right hgone))
  kept q b hq hb := by
    obtain ⟨hfirst, hsecond⟩ := not_or.1 hq
    exact h'.kept q b hsecond (h.kept q b hfirst hb)

lemma Without.congr (h : c.Without c' gone) (hiff : ∀ q, gone q ↔ gone' q) : c.Without c' gone' := by
  rwa [← funext fun q => propext (hiff q)]

/-- Files are forgotten one by one, and the tables stay in step. -/
lemma without_removeFiles (removed : List Path) (h : c.Orderly) :
    (removed.foldl removeFile c).Orderly ∧ c.Without (removed.foldl removeFile c)
      fun q => ∃ r ∈ removed, compare r.normalize q = .eq := by
  induction removed generalizing c with
  | nil => exact ⟨h, without_self c (by simp)⟩
  | cons p removed ih =>
      obtain ⟨horderly, hwithout⟩ := ih (h.removeFile p)
      refine ⟨horderly, ((without_removeFile c p).trans hwithout).congr fun q => ?_⟩
      simp

/-- A file that was forgotten has a node exactly if others still need it. -/
lemma Without.contains_iff (h : c.Without c' gone) (horderly : c'.Orderly) {q : Path} (hq : gone q) :
    c'.graph.contains q = true ↔ ∃ p, c'.graph.Needs p q := by
  rw [Graph.contains_iff horderly.inStep (horderly.held q)]
  constructor
  · rintro (⟨n, hn, hbuilt⟩ | ⟨d, hneeds⟩ | hneeded)
    · have hbuild := h.forgotten q hq
      rw [Graph.Carries, hn] at hbuild
      rw [hbuild.1] at hbuilt
      cases hbuilt
    · exact absurd hq ((h.needs q d).1 hneeds).1
    · exact hneeded
  · exact fun hneeded => Or.inr (Or.inr hneeded)

/-- A file that is kept, but needs one that was forgotten, has no valid entry any more. -/
lemma Without.get_eq_none (h : c.Without c' gone) (horderly : c.Orderly)
    (hcongr : ∀ p q : Path, compare p q = .eq → gone p → gone q) {q r : Path} (hq : ¬gone q)
    (hr : gone r) (hneeds : c.graph.Needs q r) (tree : FileTree) : (c'.get tree q).2 = none := by
  have hnormal : compare q q.normalize = .eq := (horderly.normal q r hneeds).1
  refine Option.eq_none_iff_forall_ne_some.2 fun e he => ?_
  rw [get_snd, validEntry?_eq_some_iff] at he
  obtain ⟨hentry, -, hstamps⟩ := he
  have hkept : ¬gone q.normalize := fun hgone => hq (hcongr _ _ (Path.compare_comm.1 hnormal) hgone)
  rw [(h.entries q.normalize).2 hkept] at hentry
  have hneeds' : c.graph.Needs q.normalize r :=
    (Graph.needs_congr c.graph hnormal (Path.compare_self r)).1 hneeds
  obtain ⟨d, hd, hdr⟩ := ((horderly.agree _ e hentry).needs r).1 hneeds'
  obtain ⟨record, hrecord, -⟩ := stampAgrees_iff.1 (hstamps d hd)
  rw [(h.records d).1 (hcongr r d (Path.compare_comm.1 hdr) hr)] at hrecord
  cases hrecord

end Cache

/-! ## Rebuild sets -/

namespace Session

/-- The files that went. -/
def removals (changes : ChangeSet) : List Path :=
  changes.toList.filterMap fun (p, kind) => if kind = .remove then some p else none

lemma rebuildSet_some (c : Cache) (changes : ChangeSet) : rebuildSet (some c) changes
    = (some ((removals changes).foldl Cache.removeFile c),
      (c.affected changes.keys).filter fun p =>
        !((removals changes).map Path.normalize).any p.same) := rfl

lemma removes_iff (changes : ChangeSet) (q : Path) :
    changes.Removes q ↔ ∃ r ∈ removals changes, compare r.normalize q = .eq := by
  have hmem : ∀ r, r ∈ removals changes ↔ (r, ChangeKind.remove) ∈ changes.toList := by
    intro r
    simp [removals, List.mem_filterMap]
  constructor
  · rintro ⟨r, hr, hrq⟩
    obtain ⟨p, hpr, hp⟩ :=
      Std.TreeMap.getElem?_eq_some_iff_exists_compare_eq_eq_and_mem_toList.1 hr
    exact ⟨p, (hmem p).2 hp, Path.normalize_congr hpr ▸ hrq⟩
  · rintro ⟨r, hr, hrq⟩
    exact ⟨r, PathMap.getElem?_of_mem_toList ((hmem r).1 hr), hrq⟩

variable {changes : ChangeSet} {q : Path}

lemma removes_congr {p : Path} (h : compare p q = .eq) (hp : changes.Removes p) :
    changes.Removes q := by
  obtain ⟨r, hr, hrp⟩ := hp
  exact ⟨r, hr, Std.TransCmp.eq_trans hrp h⟩

/-- A file is left out of the set exactly if it went. -/
lemma any_same_iff :
    ((removals changes).map Path.normalize).any q.same = true ↔ changes.Removes q := by
  rw [removes_iff]
  simp only [List.any_map, List.any_eq_true, Function.comp_apply, Path.same, beq_iff_eq,
    Path.compare_eq_iff]
  exact exists_congr fun r => and_congr_right fun _ => eq_comm

/-- What a pass after changes is about, and what the cache still knows. -/
structure Rebuilt (c : Cache) (changes : ChangeSet) (c' : Cache) (files : List Path) : Prop where
  /-- The files are in the order in which they are found. -/
  order : files.Sublist (c.affected changes.keys)
  distinct : files.Pairwise fun p q => compare p q ≠ .eq
  exact : ∀ q, q ∈ files ↔ q ∈ c.affected changes.keys ∧ ¬changes.Removes q
  /-- A file that went has a node at most, and that because others need it. -/
  forgotten : ∀ q, changes.Removes q → c'.entries[q]? = none ∧ c'.records[q]? = none
    ∧ (∀ d, ¬c'.graph.Needs q d) ∧ (c'.graph.contains q = true ↔ ∃ p, c'.graph.Needs p q)
  kept : ∀ q, ¬changes.Removes q → c'.entries[q]? = c.entries[q]? ∧ c'.records[q]? = c.records[q]?
    ∧ ∀ d, c'.graph.Needs q d ↔ c.graph.Needs q d
  /-- What needs a file that went is compiled anew. -/
  dependents : ∀ q r, ¬changes.Removes q → changes.Removes r → c.graph.Needs q r →
    Reach.among files q = true ∧ ∀ tree, (c'.get tree q).2 = none

/-- What needs a file that went is found before the cache forgets the file. -/
lemma exists_affected {c : Cache} (h : c.graph.InStep) {r : Path} (hr : changes.Removes r)
    (hneeds : c.graph.Needs q r) : ∃ p ∈ c.affected changes.keys, compare q p = .eq := by
  obtain ⟨a, ha, har⟩ := hr
  obtain ⟨k, hka, hk⟩ := Std.TreeMap.getElem?_eq_some_iff_exists_compare_eq_eq_and_mem_toList.1 ha
  have hkey : k ∈ changes.keys := by
    rw [← Std.TreeMap.map_fst_toList_eq_keys]
    exact List.mem_map.2 ⟨_, hk, rfl⟩
  have hchanged : Reach.among (changes.keys.map Path.normalize) r = true := by
    refine Reach.among_iff.2 ⟨k.normalize, List.mem_map.2 ⟨k, hkey, rfl⟩, ?_⟩
    rw [← Path.normalize_congr hka]
    exact Path.compare_comm.1 har
  exact Reach.among_iff.1 (Graph.among_affected h (.single hneeds) hchanged)

/-- Without a cache, the pass is about the changed files that are still there. -/
lemma rebuildSet_none (changes : ChangeSet) : rebuildSet none changes
    = (none, changes.keys.filter fun p => changes[p]? ≠ some .remove) := by
  have hkeys : changes.keys = changes.toList.map Prod.fst :=
    Std.TreeMap.map_fst_toList_eq_keys.symm
  rw [rebuildSet, hkeys, List.filter_map, ← List.filterMap_eq_map, List.filterMap_filter]
  refine congrArg (Prod.mk none) (List.filterMap_congr fun x hx => ?_)
  obtain ⟨p, kind⟩ := x
  have hkind : changes[p]? = some kind := PathMap.getElem?_of_mem_toList hx
  cases kind <;> simp [hkind]

/-- **Rebuild sets.**  At any point of any history, a pass after changes is about exactly the files that
the changes reach, as the cache knew them before, but for those that went; the cache forgets these and
nothing else, and has no answer any more about a file that needs one of them.  Without a cache, the pass
is about the changed files that did not go. -/
theorem rebuildSet_exact {tree : FileTree} {directory : Path} {s : Cache.Archive}
    (hsteps : Cache.Archive.Steps (Cache.Archive.cold tree directory) s) (changes : ChangeSet) :
    (∃ c' files, rebuildSet (some s.cache) changes = (some c', files)
      ∧ Rebuilt s.cache changes c' files)
    ∧ rebuildSet none changes = (none, changes.keys.filter fun p => changes[p]? ≠ some .remove) := by
  have horderly := Cache.Archive.orderly_of_steps hsteps
  obtain ⟨horderly', hremoved⟩ := Cache.without_removeFiles (removals changes) horderly
  have hwithout := hremoved.congr fun q => (removes_iff changes q).symm
  have hmem : ∀ q, (q ∈ (s.cache.affected changes.keys).filter fun p =>
      !((removals changes).map Path.normalize).any p.same)
        ↔ q ∈ s.cache.affected changes.keys ∧ ¬changes.Removes q := by
    intro q
    rw [List.mem_filter, Bool.not_eq_true', ← any_same_iff, Bool.not_eq_true]
  refine ⟨⟨_, _, rebuildSet_some s.cache changes, ?_⟩, rebuildSet_none changes⟩
  refine ⟨List.filter_sublist, ?_, hmem, fun q hq => ?_, fun q hq => ?_, fun q r hq hr hneeds => ?_⟩
  · exact (Reach.pairwise_explore_ne (Reach.pairwise_fresh [] _)).sublist List.filter_sublist
  · exact ⟨(hwithout.entries q).1 hq, (hwithout.records q).1 hq,
      fun d hneeds => ((hwithout.needs q d).1 hneeds).1 hq, hwithout.contains_iff horderly' hq⟩
  · exact ⟨(hwithout.entries q).2 hq, (hwithout.records q).2 hq,
      fun d => (hwithout.needs q d).trans (and_iff_right hq)⟩
  · obtain ⟨p, hp, hqp⟩ := exists_affected horderly.inStep hr hneeds
    have hkept : ¬changes.Removes p := fun hgone => hq (removes_congr (Path.compare_comm.1 hqp) hgone)
    refine ⟨Reach.among_iff.2 ⟨p, (hmem p).2 ⟨hp, hkept⟩, hqp⟩, ?_⟩
    exact hwithout.get_eq_none horderly (fun _ _ => removes_congr) hq hr hneeds

/-- One file went, and another needs it. -/
theorem rebuildSet_exact_put_back : ∃ s c' files,
    Cache.Archive.Steps (Cache.Archive.cold (Cache.PutBack.treeWith "1") ⟨"cache"⟩) s
      ∧ rebuildSet (some s.cache) (PathMap.put ∅ ⟨"a"⟩ .remove) = (some c', files)
      ∧ (∃ e, (s.cache.get s.tree ⟨"b"⟩).2 = some e) ∧ Reach.among files ⟨"b"⟩ = true
      ∧ ∀ tree, (c'.get tree ⟨"b"⟩).2 = none := by
  obtain ⟨t, e, m, hsteps, hget, -, -, hmem, -⟩ := Cache.PutBack.exists_session
  obtain ⟨saved, hsteps⟩ := Cache.Archive.steps_of_session Cache.PutBack.ordinary_one hsteps
  obtain ⟨⟨c', files, hset, hrebuilt⟩, -⟩ :=
    rebuildSet_exact hsteps (PathMap.put ∅ ⟨"a"⟩ .remove)
  have hneeds : t.cache.graph.Needs ⟨"b"⟩ ⟨"a"⟩ := by
    have hvalid := hget
    rw [Cache.get_snd, Cache.validEntry?_eq_some_iff] at hvalid
    have hagrees := (Cache.Archive.orderly_of_steps hsteps).agree _ e hvalid.1
    exact (hagrees.needs ⟨"a"⟩).2 ⟨⟨"a"⟩, hmem, Path.compare_self _⟩
  have hgone : ChangeSet.Removes (PathMap.put ∅ ⟨"a"⟩ .remove) ⟨"a"⟩ :=
    ⟨⟨"a"⟩, PathMap.getElem?_put_self _ _ _, by decide⟩
  have hkept : ¬ChangeSet.Removes (PathMap.put ∅ ⟨"a"⟩ .remove) ⟨"b"⟩ := by
    rintro ⟨r, hr, hrb⟩
    rw [PathMap.getElem?_put] at hr
    split_ifs at hr with har
    · rw [← Path.normalize_congr har] at hrb
      exact absurd hrb (by decide)
    · simp at hr
  obtain ⟨hfound, hnone⟩ := hrebuilt.dependents ⟨"b"⟩ ⟨"a"⟩ hkept hgone hneeds
  exact ⟨_, c', files, hsteps, hset, ⟨e, hget⟩, hfound, hnone⟩

end Session

end Rebuild
