import Rebuild.Proofs.Path.Table
import Rebuild.Proofs.Sorting

/-!
# Spellings in tables and sets

Tables and sets of paths keep the spelling under which a path came in, and what is listed from them
shows it.  `PathMap.Keys` and `PathSet.Each` say that all spellings are such, and every operation
keeps them if what comes in is such.  Sets that have all their members in normal form are the same
if they have the same members (`PathSet.equiv_of_normal`), and then list them in the same way.
-/

namespace Rebuild

variable {P : Path → Prop} {p q : Path}

namespace PathMap

variable {β γ : Type} {m : PathMap β}

/-- All keys of the table, as they are spelled, are such. -/
def Keys (m : PathMap β) (P : Path → Prop) : Prop := ∀ q k : Path, m.getKey? q = some k → P k

lemma keys_empty : Keys (∅ : PathMap β) P := by
  intro q k hk
  rw [Std.TreeMap.getKey?_emptyc] at hk
  cases hk

lemma Keys.put (h : m.Keys P) (hp : P p) (v : β) : (m.put p v).Keys P := by
  intro q k hk
  rw [PathMap.put, Std.TreeMap.getKey?_insert] at hk
  split_ifs at hk
  · cases hk
    by_cases hmem : p ∈ m
    · exact h p _ (Std.TreeMap.getKey?_eq_some_getKeyD hmem)
    · rw [Std.TreeMap.getKeyD_eq_fallback hmem]
      exact hp
  · exact h q k hk

lemma Keys.erase (h : m.Keys P) (p : Path) : Keys (m.erase p) P := by
  intro q k hk
  rw [Std.TreeMap.getKey?_erase] at hk
  split_ifs at hk
  exact h q k hk

/-- A key keeps its spelling, and a new one has the spelling that it came in under. -/
lemma getKey?_ensure (m : PathMap β) (p q : Path) (v : β) : (m.ensure p v).getKey? q
    = (m.getKey? q).or (if compare p q = .eq then some p else none) := by
  rw [PathMap.ensure, Std.TreeMap.getKey?_insertIfNew]
  split_ifs with hnew hq hq
  · rw [← Std.TreeMap.getKey?_congr hq, Std.TreeMap.getKey?_eq_none hnew.2]
    rfl
  · exact absurd hnew.1 hq
  · have hmem : p ∈ m := not_not.1 fun h => hnew ⟨hq, h⟩
    rw [← Std.TreeMap.getKey?_congr hq, Std.TreeMap.getKey?_eq_some_getKey hmem]
    rfl
  · rw [Option.or_none]

lemma Keys.ensure (h : m.Keys P) (hp : P p) (v : β) : (m.ensure p v).Keys P := by
  intro q k hk
  rw [PathMap.ensure, Std.TreeMap.getKey?_insertIfNew] at hk
  split_ifs at hk
  · cases hk
    exact hp
  · exact h q k hk

/-- Changing a value leaves the spelling of its key. -/
lemma getKey?_adjust (m : PathMap β) (p q : Path) (f : β → β) :
    (m.adjust p f).getKey? q = m.getKey? q := by
  rw [PathMap.adjust]
  cases hp : m[p]? with
  | none => rfl
  | some v =>
      have hmem : p ∈ m := by
        rw [Std.TreeMap.mem_iff_isSome_getElem?, hp]
        rfl
      have hkey := compare_getKeyD m p
      simp only [PathMap.put, Std.TreeMap.getKey?_insert]
      split_ifs with hq
      · rw [← Std.TreeMap.getKey?_eq_some_getKeyD hmem]
        exact Std.TreeMap.getKey?_congr (Std.TransCmp.eq_trans (Path.compare_comm.1 hkey) hq)
      · rfl

lemma Keys.adjust (h : m.Keys P) (p : Path) (f : β → β) : (m.adjust p f).Keys P := by
  intro q k hk
  rw [getKey?_adjust] at hk
  exact h q k hk

lemma Keys.map (h : m.Keys P) (f : Path → β → γ) : Keys (Std.TreeMap.map f m) P := by
  intro q k hk
  rw [Std.TreeMap.getKey?_map] at hk
  exact h q k hk

lemma getKey?_of_mem_toList {x : Path × β} (hx : x ∈ m.toList) : m.getKey? x.1 = some x.1 :=
  (Std.TreeMap.mem_toList_iff_getKey?_eq_some_and_getElem?_eq_some.1 hx).1

lemma getElem?_of_mem_toList {x : Path × β} (hx : x ∈ m.toList) : m[x.1]? = some x.2 :=
  (Std.TreeMap.mem_toList_iff_getKey?_eq_some_and_getElem?_eq_some.1 hx).2

lemma Keys.of_mem_toList (h : m.Keys P) {x : Path × β} (hx : x ∈ m.toList) : P x.1 :=
  h x.1 x.1 (getKey?_of_mem_toList hx)

lemma getKey?_eq_none_iff : m.getKey? p = none ↔ m[p]? = none := by
  rw [← Option.not_isSome_iff_eq_none, ← Option.not_isSome_iff_eq_none,
    ← Std.TreeMap.mem_iff_isSome_getKey?, ← Std.TreeMap.mem_iff_isSome_getElem?]

/-- Tables whose keys are spelled alike list them alike. -/
lemma keys_eq_of_getKey?_eq {m' : PathMap γ} (h : ∀ p : Path, m.getKey? p = m'.getKey? p) :
    m.keys = m'.keys := by
  have hunit : (Std.TreeMap.map (fun _ _ => ()) m).Equiv (Std.TreeMap.map (fun _ _ => ()) m') :=
    Std.TreeMap.Equiv.of_forall_getKey?_unit_eq fun p => by
      rw [Std.TreeMap.getKey?_map, Std.TreeMap.getKey?_map, h]
  have hkeys := hunit.keys_eq
  rwa [Std.TreeMap.keys_map, Std.TreeMap.keys_map] at hkeys

end PathMap

namespace PathSet

variable {s s' : PathSet}

/-- All members of the set, as they are spelled, are such. -/
def Each (s : PathSet) (P : Path → Prop) : Prop := ∀ q k : Path, s.get? q = some k → P k

lemma each_empty : Each ∅ P := by
  intro q k hk
  rw [Std.TreeSet.get?_emptyc] at hk
  cases hk

/-- A member keeps its spelling, and a new one has the spelling that it came in under. -/
lemma get?_insert (s : PathSet) (p q : Path) : Std.TreeSet.get? (s.insert p) q
    = (s.get? q).or (if compare p q = .eq then some p else none) := by
  rw [Std.TreeSet.get?_insert]
  split_ifs with hnew hq hq
  · rw [← Std.TreeSet.get?_congr hq, Std.TreeSet.get?_eq_none hnew.2]
    rfl
  · exact absurd hnew.1 hq
  · have hmem : p ∈ s := not_not.1 fun h => hnew ⟨hq, h⟩
    rw [← Std.TreeSet.get?_congr hq, Std.TreeSet.get?_eq_some_get hmem]
    rfl
  · rw [Option.or_none]

lemma Each.insert (h : s.Each P) (hp : P p) : Each (s.insert p) P := by
  intro q k hk
  rw [Std.TreeSet.get?_insert] at hk
  split_ifs at hk
  · cases hk
    exact hp
  · exact h q k hk

lemma Each.erase (h : s.Each P) (p : Path) : Each (s.erase p) P := by
  intro q k hk
  rw [Std.TreeSet.get?_erase] at hk
  split_ifs at hk
  exact h q k hk

lemma each_ofPaths {paths : List Path} (h : ∀ p ∈ paths, P p) : (ofPaths paths).Each P := by
  induction paths with
  | nil => exact each_empty
  | cons p paths ih =>
      exact (ih fun q hq => h q (List.mem_cons_of_mem _ hq)).insert (h p List.mem_cons_self)

/-- A member is listed as it is spelled in the set. -/
lemma get?_of_mem_toList (hp : p ∈ s.toList) : s.get? p = some p := by
  obtain ⟨x, hx, rfl⟩ := List.mem_map.1
    (show p ∈ s.inner.toList.map Prod.fst from Std.TreeMap.map_fst_toList_eq_keys ▸ hp)
  exact PathMap.getKey?_of_mem_toList hx

lemma Each.of_mem_toList (h : s.Each P) (hp : p ∈ s.toList) : P p :=
  h p p (get?_of_mem_toList hp)

lemma Each.of_equiv (h : s.Each P) (hs : s'.Equiv s) : s'.Each P := by
  intro q k hk
  rw [hs.get?_eq] at hk
  exact h q k hk

/-- Sets of the same members, all spelled in normal form, are the same. -/
lemma equiv_of_normal (h : s.Each fun p => p.normalize = p) (h' : s'.Each fun p => p.normalize = p)
    (hmem : ∀ q, q ∈ s' ↔ q ∈ s) : s'.Equiv s := by
  -- What a set in normal form answers.
  have hget : ∀ {s : PathSet}, (s.Each fun p => p.normalize = p) → ∀ q ∈ s,
      s.get? q = some q.normalize := by
    intro s h q hq
    have hk := Std.TreeSet.get?_eq_some_get hq
    rw [hk, ← h q _ hk, Path.normalize_congr (Std.TreeSet.compare_get_self hq)]
  refine Std.TreeSet.Equiv.of_forall_get?_eq fun q => ?_
  by_cases hq : q ∈ s
  · rw [hget h q hq, hget h' q ((hmem q).2 hq)]
  · rw [Std.TreeSet.get?_eq_none hq, Std.TreeSet.get?_eq_none (mt (hmem q).1 hq)]

/-- Sets of the same members list the same paths, if not in the same spellings. -/
lemma map_components_toList_eq (h : ∀ p, p ∈ s ↔ p ∈ s') :
    s.toList.map Path.components = s'.toList.map Path.components := by
  have hsorted : ∀ s : PathSet, (s.toList.map Path.components).Pairwise (compare · · = .lt) :=
    fun s => List.pairwise_map.2 (Std.TreeSet.ordered_toList (t := s))
  have hmem : ∀ (s : PathSet) (steps : List Component),
      steps ∈ s.toList.map Path.components ↔ ∃ p ∈ s, p.components = steps := by
    intro s steps
    constructor
    · intro hsteps
      obtain ⟨p, hp, rfl⟩ := List.mem_map.1 hsteps
      exact ⟨p, mem_iff_toList.2 ⟨p, hp, Path.compare_self p⟩, rfl⟩
    · rintro ⟨p, hp, rfl⟩
      obtain ⟨d, hd, hdp⟩ := mem_iff_toList.1 hp
      exact List.mem_map.2 ⟨d, hd, Path.compare_eq_iff.1 hdp⟩
  refine eq_of_mem_iff (hsorted s) (hsorted s') fun steps => ?_
  rw [hmem, hmem]
  simp only [h]

/-- Putting in paths of which none is there yet, and no two are the same. -/
lemma perm_foldl_insert {paths : List Path} (hnew : ∀ p ∈ paths, p ∉ s)
    (hdistinct : paths.Pairwise fun p q => ¬compare p q = .eq) :
    (paths.foldl (fun s p => s.insert p) s).toList.Perm (paths ++ s.toList) := by
  let _ : BEq Path := ⟨fun a b => compare a b == .eq⟩
  have : Std.LawfulBEqCmp (compare : Path → Path → Ordering) :=
    ⟨fun {a b} => (beq_iff_eq (a := compare a b) (b := .eq)).symm⟩
  induction paths generalizing s with
  | nil => exact List.Perm.refl _
  | cons p paths ih =>
      obtain ⟨hne, hdistinct⟩ := List.pairwise_cons.1 hdistinct
      have hinsert : (s.insert p).toList.Perm (p :: s.toList) := by
        have hperm := Std.TreeSet.toList_insert_perm (t := s) (k := p)
        rwa [if_neg (hnew p List.mem_cons_self)] at hperm
      have hrest : ∀ q ∈ paths, q ∉ s.insert p := by
        intro q hq hmem
        rcases Std.TreeSet.mem_insert.1 hmem with hpq | hmem
        · exact hne q hq hpq
        · exact hnew q (List.mem_cons_of_mem _ hq) hmem
      exact (ih hrest hdistinct).trans ((hinsert.append_left paths).trans List.perm_middle)

/-- A set is what comes of its list. -/
lemma collect_toList (s : PathSet) : (collect s.toList).Equiv s := by
  refine Std.TreeSet.Equiv.of_toList_perm ?_
  have hperm := perm_foldl_insert (s := ∅) (fun p _ => Std.TreeSet.not_mem_emptyc)
    (Std.TreeSet.distinct_toList (t := s))
  rwa [show (∅ : PathSet).toList = [] from rfl, List.append_nil] at hperm

end PathSet
end Rebuild
