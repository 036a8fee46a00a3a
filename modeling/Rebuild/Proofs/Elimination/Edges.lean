import Mathlib.Tactic.Common
import Rebuild.Elimination.Basic

/-!
# The edges of a program

An edge leads from a unit to one that it imports from, and requests some symbols of it, perhaps
none.  Units declare edges, and more of them can be given beside the units.  `Program.imports`
gathers all of them in one table for each unit, and says no more and no less: `mem_targets` and
`mem_requested`.

Both answers of a table, whether it imports from a unit and whether it requests a symbol, are taken
apart by unions in the same way (`Additive`), and one argument serves for both.
-/

namespace Rebuild

/-- What every step of a fold adds to. -/
lemma foldl_iff_or {σ α : Type} (P : σ → Prop) (Q : α → Prop) {f : σ → α → σ}
    (hstep : ∀ s a, P (f s a) ↔ P s ∨ Q a) (xs : List α) (s : σ) :
    P (xs.foldl f s) ↔ P s ∨ ∃ x ∈ xs, Q x := by
  induction xs generalizing s with
  | nil => simp
  | cons x xs ih =>
      rw [List.foldl_cons, ih, hstep]
      simp [or_assoc]

/-! ## Names -/

namespace Names

variable {s t : Names} {x : String}

@[simp] lemma mem_union : x ∈ s.union t ↔ x ∈ s ∨ x ∈ t := by
  simp [union, Std.TreeSet.mem_insertMany_list]

lemma mem_filter {keep : String → Bool} : x ∈ s.filter keep ↔ x ∈ s ∧ keep x = true := by
  rw [← Std.TreeSet.mem_toList, Std.TreeSet.toList_filter, List.mem_filter, Std.TreeSet.mem_toList]

end Names

/-! ## Tables -/

namespace ImportTable

/-- The table requests the symbol from the unit. -/
def Requests (t : ImportTable) (unit symbol : String) : Prop :=
  ∃ names, t[unit]? = some names ∧ symbol ∈ names

/-- What holds of a union exactly when it holds of one of its parts, and not of the empty table. -/
structure Additive (P : ImportTable → Prop) : Prop where
  empty : ¬P ∅
  union : ∀ s t, P (s.union t) ↔ P s ∨ P t

variable {s t : ImportTable} {unit symbol : String}

lemma requests_iff : t.Requests unit symbol ↔ symbol ∈ t.getD unit ∅ := by
  rw [Requests, Std.TreeMap.getD_eq_getD_getElem?]
  cases t[unit]? <;> simp

lemma mem_request {target : String} {names : Names} :
    unit ∈ t.request target names ↔ target = unit ∨ unit ∈ t := by
  simp [request]

lemma requests_request {target : String} {names : Names} :
    (t.request target names).Requests unit symbol
      ↔ t.Requests unit symbol ∨ (target = unit ∧ symbol ∈ names) := by
  rw [requests_iff, requests_iff, request, Std.TreeMap.getD_insert]
  by_cases h : target = unit
  · simp [h]
  · simp [h]

/-- A table imports from a unit. -/
lemma additive_mem (unit : String) : Additive fun t => unit ∈ t where
  empty := by simp
  union s t := by
    refine (foldl_iff_or (fun t : ImportTable => unit ∈ t) (fun r : String × Names => r.1 = unit)
      (fun t r => mem_request.trans or_comm) _ _).trans (or_congr_right ⟨?_, ?_⟩)
    · rintro ⟨r, hr, rfl⟩
      exact Std.TreeMap.mem_keys.1 (Std.TreeMap.map_fst_toList_eq_keys ▸ List.mem_map_of_mem hr)
    · intro h
      obtain ⟨r, hr, hunit⟩ := List.mem_map.1
        (Std.TreeMap.map_fst_toList_eq_keys ▸ Std.TreeMap.mem_keys.2 h)
      exact ⟨r, hr, hunit⟩

/-- A table requests a symbol. -/
lemma additive_requests (unit symbol : String) : Additive fun t => t.Requests unit symbol where
  empty := by simp [Requests]
  union s t := by
    refine (foldl_iff_or (fun t : ImportTable => t.Requests unit symbol)
      (fun r : String × Names => r.1 = unit ∧ symbol ∈ r.2) (fun t r => requests_request) _ _).trans
      (or_congr_right ⟨?_, ?_⟩)
    · rintro ⟨⟨target, names⟩, hr, rfl, hsymbol⟩
      exact ⟨names, Std.TreeMap.mem_toList_iff_getElem?_eq_some.1 hr, hsymbol⟩
    · rintro ⟨names, hnames, hsymbol⟩
      exact ⟨(unit, names), Std.TreeMap.mem_toList_iff_getElem?_eq_some.2 hnames, rfl, hsymbol⟩

end ImportTable

namespace Program

variable {p : Program} {u v symbol : String}

/-! ## Edges -/

/-- The table is one of those that say what `u` imports. -/
def Declares (p : Program) (u : String) (t : ImportTable) : Prop :=
  (∃ unit ∈ p.units, unit.id = u ∧ unit.imports = t) ∨ p.extraImports[u]? = some t

/-- There is an edge from `u` to `v`. -/
def Imports (p : Program) (u v : String) : Prop := ∃ t, p.Declares u t ∧ v ∈ t

/-- An edge from `u` to `v` requests the symbol. -/
def Requests (p : Program) (u v symbol : String) : Prop :=
  ∃ t, p.Declares u t ∧ t.Requests v symbol

lemma foldl_imports {P : ImportTable → Prop} (h : ImportTable.Additive P)
    (tables : List (String × ImportTable)) (all : ImportMap) :
    P ((tables.foldl (fun all (unit, table) => all.insert unit ((all.getD unit ∅).union table))
        all).getD u ∅)
      ↔ P (all.getD u ∅) ∨ ∃ t, (u, t) ∈ tables ∧ P t := by
  induction tables generalizing all with
  | nil => simp
  | cons entry tables ih =>
      obtain ⟨unit, table⟩ := entry
      rw [List.foldl_cons, ih, Std.TreeMap.getD_insert]
      by_cases hunit : unit = u
      · subst hunit
        rw [if_pos Std.ReflCmp.compare_self, h.union]
        simp only [List.mem_cons, Prod.mk.injEq, true_and]
        constructor
        · rintro ((hall | htable) | ⟨t, ht, hP⟩)
          · exact Or.inl hall
          · exact Or.inr ⟨table, Or.inl rfl, htable⟩
          · exact Or.inr ⟨t, Or.inr ht, hP⟩
        · rintro (hall | ⟨t, rfl | ht, hP⟩)
          · exact Or.inl (Or.inl hall)
          · exact Or.inl (Or.inr hP)
          · exact Or.inr ⟨t, ht, hP⟩
      · simp [hunit, Ne.symm hunit]

/-- **The gathered table of a unit says what some declared table says.** -/
lemma imports_iff {P : ImportTable → Prop} (h : ImportTable.Additive P) :
    P (p.imports.getD u ∅) ↔ ∃ t, p.Declares u t ∧ P t := by
  rw [imports, foldl_imports h]
  simp only [Std.TreeMap.getD_emptyc, h.empty, false_or, List.mem_append, List.mem_map,
    Prod.mk.injEq, Std.TreeMap.mem_toList_iff_getElem?_eq_some]
  rfl

/-- The units that a unit imports from, unknown ones included. -/
def targets (imports : ImportMap) (id : String) : List String := (imports.getD id ∅).keys

/-- What these units request from another one. -/
def requested (imports : ImportMap) (units : List String) (id : String) : Names :=
  units.foldl (fun all unit => all.union ((imports.getD unit ∅).getD id ∅)) ∅

/-- The targets of a unit are those that it has edges to. -/
lemma mem_targets : v ∈ targets p.imports u ↔ p.Imports u v := by
  rw [targets, Std.TreeMap.mem_keys]
  exact imports_iff (ImportTable.additive_mem v)

lemma mem_requested_iff {imports : ImportMap} {units : List String} :
    symbol ∈ requested imports units v
      ↔ ∃ u ∈ units, symbol ∈ (imports.getD u ∅).getD v ∅ := by
  rw [requested, foldl_iff_or (fun all : Names => symbol ∈ all)
    (fun unit => symbol ∈ (imports.getD unit ∅).getD v ∅) fun all unit => Names.mem_union]
  simp

/-- What units request together is what one of them requests. -/
lemma mem_requested {units : List String} :
    symbol ∈ requested p.imports units v ↔ ∃ u ∈ units, p.Requests u v symbol := by
  rw [mem_requested_iff]
  refine exists_congr fun u => and_congr_right fun _ => ?_
  exact ImportTable.requests_iff.symm.trans (imports_iff (ImportTable.additive_requests v symbol))

end Program
end Rebuild
