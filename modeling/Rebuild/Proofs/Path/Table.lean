import Mathlib.Tactic.Common
import Rebuild.Path.Map
import Rebuild.Proofs.Path.Normal

/-!
# What tables and sets of paths answer

A table and a set answer for a path as they do for any spelling of it.  For each operation one lemma
says what the result answers.  Paths in normal form have one spelling only (`eq_of_compare`), so for
these the answers are those of plain maps.
-/

namespace Rebuild

namespace Path

lemma compare_comm {p q : Path} : compare p q = .eq ↔ compare q p = .eq :=
  ⟨Std.OrientedCmp.eq_symm, Std.OrientedCmp.eq_symm⟩

@[simp] lemma compare_self (p : Path) : compare p p = .eq := Std.ReflCmp.compare_self

/-- Spellings of one path have one normal form. -/
lemma normalize_congr {p q : Path} (h : compare p q = .eq) : p.normalize = q.normalize := by
  simp only [normalize]
  rw [compare_eq_iff.1 h]

/-- Paths in normal form are spelled in one way. -/
lemma eq_of_compare {p q : Path} (hp : p.normalize = p) (hq : q.normalize = q)
    (h : compare p q = .eq) : p = q := by
  rw [← hp, ← hq, normalize_congr h]

/-- Paths in normal form compare equal only when they are equal. -/
lemma compare_eq_iff_eq {p q : Path} (hp : p.normalize = p) (hq : q.normalize = q) :
    compare p q = .eq ↔ p = q :=
  ⟨eq_of_compare hp hq, fun h => h ▸ compare_self p⟩

end Path

namespace PathMap

variable {β : Type}

lemma getElem?_congr (m : PathMap β) {p q : Path} (h : compare p q = .eq) : m[p]? = m[q]? :=
  Std.TreeMap.getElem?_congr h

@[simp] lemma getElem?_put_self (m : PathMap β) (p : Path) (value : β) :
    (m.put p value)[p]? = some value := by
  rw [getElem?_put, if_pos (Path.compare_self p)]

lemma getElem?_put_of_ne (m : PathMap β) {p q : Path} (value : β) (h : compare p q ≠ .eq) :
    (m.put p value)[q]? = m[q]? := by
  rw [getElem?_put, if_neg h]

lemma mem_put {m : PathMap β} {p q : Path} {value : β} :
    q ∈ m.put p value ↔ compare p q = .eq ∨ q ∈ m := by
  rw [Std.TreeMap.mem_iff_isSome_getElem?, Std.TreeMap.mem_iff_isSome_getElem?, getElem?_put]
  split_ifs with h <;> simp [h]

/-- Making sure of a value changes only the answer that was missing. -/
lemma getElem?_ensure (m : PathMap β) (p q : Path) (value : β) :
    (m.ensure p value)[q]? = if compare p q = .eq ∧ m[p]? = none then some value else m[q]? := by
  have hmem : p ∈ m ↔ ¬m[p]? = none := by
    rw [Std.TreeMap.mem_iff_isSome_getElem?, Option.isSome_iff_ne_none]
  rw [ensure]
  simp only [Std.TreeMap.getElem?_insertIfNew, hmem, not_not]

/-- Changing the value at a path changes that value, if there is one, and no other. -/
lemma getElem?_adjust (m : PathMap β) (p q : Path) (f : β → β) :
    (m.adjust p f)[q]? = if compare p q = .eq then m[q]?.map f else m[q]? := by
  rw [adjust]
  by_cases h : compare p q = .eq
  · rw [if_pos h, ← getElem?_congr m h]
    cases hp : m[p]? with
    | none => simp [← getElem?_congr m h, hp]
    | some value => simp [getElem?_put, h]
  · rw [if_neg h]
    cases m[p]? with
    | none => rfl
    | some value => exact getElem?_put_of_ne m _ h

/-- Changing all values changes what is answered, and nothing else. -/
lemma getElem?_map {γ : Type} (m : PathMap β) (p : Path) (f : β → γ) :
    (Std.TreeMap.map (fun _ value => f value) m)[p]? = m[p]?.map f := by
  rw [Std.TreeMap.getElem?_map', Option.pmap_eq_map]

/-- All values of the table are such. -/
def Every (m : PathMap β) (P : β → Prop) : Prop := ∀ (p : Path) (v : β), m[p]? = some v → P v

section

variable {m : PathMap β} {P : β → Prop}

lemma every_empty : Every (∅ : PathMap β) P := by
  intro p v h
  rw [Std.TreeMap.getElem?_emptyc] at h
  cases h

lemma Every.put (h : m.Every P) {p : Path} {v : β} (hv : P v) : (m.put p v).Every P := by
  intro q w hw
  rw [getElem?_put] at hw
  split_ifs at hw
  · cases hw
    exact hv
  · exact h q w hw

lemma Every.erase (h : m.Every P) (p : Path) : Every (m.erase p) P := by
  intro q w hw
  rw [Std.TreeMap.getElem?_erase] at hw
  split_ifs at hw
  exact h q w hw

lemma Every.ensure (h : m.Every P) {p : Path} {v : β} (hv : P v) : (m.ensure p v).Every P := by
  intro q w hw
  rw [getElem?_ensure] at hw
  split_ifs at hw
  · cases hw
    exact hv
  · exact h q w hw

lemma Every.adjust (h : m.Every P) {f : β → β} (hf : ∀ v, P v → P (f v)) (p : Path) :
    (m.adjust p f).Every P := by
  intro q w hw
  rw [getElem?_adjust] at hw
  split_ifs at hw
  · obtain ⟨v, hv, rfl⟩ := Option.map_eq_some_iff.1 hw
    exact hf v (h q v hv)
  · exact h q w hw

lemma eq_of_rel {α : Type} {a b : Option α} (h : Option.Rel Eq a b) : a = b := by
  cases h with
  | some h => rw [h]
  | none => rfl

/-- What is related to an answer is one. -/
lemma exists_of_rel {α γ : Type} {R : α → γ → Prop} {a : Option α} {w : γ}
    (h : Option.Rel R a (some w)) : ∃ v, a = some v ∧ R v w := by
  cases h with
  | some h => exact ⟨_, rfl, h⟩

/-- A table whose answers are related to those of the other. -/
lemma Every.of_rel {γ : Type} {m' : PathMap γ} {R : β → γ → Prop} {Q : γ → Prop} (h : m.Every P)
    (hrel : ∀ q : Path, Option.Rel R m[q]? m'[q]?) (hR : ∀ v w, R v w → P v → Q w) :
    m'.Every Q := by
  intro p w hw
  have hp := hrel p
  rw [hw] at hp
  obtain ⟨v, hv, hvw⟩ := exists_of_rel hp
  exact hR v w hvw (h p v hv)

end

/-- The values of any table are those of its list. -/
lemma values_eq {α : Type} {cmp : α → α → Ordering} (m : Std.TreeMap α β cmp) :
    m.values = m.toList.map Prod.snd := by
  have hfold : m.values = m.foldr (fun _ value values => value :: values) [] := rfl
  rw [hfold, Std.TreeMap.foldr_eq_foldr_toList]
  induction m.toList with
  | nil => rfl
  | cons e es ih =>
      rw [List.foldr_cons, ih]
      rfl

end PathMap

namespace PathSet

lemma mem_congr (s : PathSet) {p q : Path} (h : compare p q = .eq) : p ∈ s ↔ q ∈ s :=
  Std.TreeSet.mem_congr h

/-- A set of listed paths holds exactly those of which a spelling is listed. -/
lemma mem_ofPaths {paths : List Path} {q : Path} :
    q ∈ ofPaths paths ↔ ∃ p ∈ paths, compare p q = .eq := by
  induction paths with
  | nil => simp [ofPaths]
  | cons p paths ih =>
      rw [ofPaths] at ih ⊢
      rw [List.foldr_cons, Std.TreeSet.mem_insert, ih]
      simp

lemma mem_foldl_insert {s : PathSet} {paths : List Path} {q : Path} :
    q ∈ paths.foldl (fun s p => s.insert p) s ↔ q ∈ s ∨ ∃ p ∈ paths, compare p q = .eq := by
  induction paths generalizing s with
  | nil => simp
  | cons p paths ih =>
      rw [List.foldl_cons, ih, Std.TreeSet.mem_insert]
      simp [or_assoc, or_left_comm]

/-- The list of a set has a spelling of each member. -/
lemma mem_iff_toList {s : PathSet} {q : Path} :
    q ∈ s ↔ ∃ p ∈ s.toList, compare p q = .eq := by
  let _ : BEq Path := ⟨fun a b => compare a b == .eq⟩
  have : Std.LawfulBEqCmp (compare : Path → Path → Ordering) :=
    ⟨fun {a b} => (beq_iff_eq (a := compare a b) (b := .eq)).symm⟩
  have h : s.toList.contains q = s.contains q := Std.TreeSet.contains_toList
  rw [← Std.TreeSet.contains_iff_mem, ← h, List.contains_iff_exists_mem_beq]
  refine exists_congr fun p => and_congr_right fun _ => ?_
  rw [Path.compare_comm]
  exact beq_iff_eq (a := compare q p) (b := .eq)

end PathSet
end Rebuild
