import Mathlib.Data.Finset.Card
import Mathlib.Data.List.Dedup
import Mathlib.Data.List.Forall2
import Mathlib.Tactic.Common
import Rebuild.Proofs.SourceMap.Mappings
import Rebuild.SourceMap.Builder

/-!
# Tables of names

A builder keeps each source and each name once.  What it does to either table is `intern`; the table
only grows at its end, so an index keeps its meaning.

* **One table.**  `getElem?_intern`: the index that is answered is one of the name, as long as
  indices have 32 bits.  `Lists` says which names a table holds.
* **Many names.**  `internAll`, for merging and for going on from a map.
* **What a mapping says.**  `Mapping.link?` looks the indices of a mapping up.
-/

namespace Rebuild.SourceMap

/-! ## One table -/

/-- The table with the name in it, and an index of the name. -/
def intern (table : List String) (name : String) : List String × UInt32 :=
  match Builder.indexOf? table name with
  | some i => (table, UInt32.ofNat i)
  | none => (table ++ [name], UInt32.ofNat table.length)

variable {table longer : List String} {name : String} {s : Finset String}

/-- An index keeps its meaning when the table grows. -/
lemma getElem?_of_grown {i : Nat} (h : table <+: longer) (hi : table[i]? = some name) :
    longer[i]? = some name := by
  obtain ⟨rest, rfl⟩ := h
  obtain ⟨hlt, -⟩ := List.getElem?_eq_some_iff.1 hi
  rw [List.getElem?_append_left hlt, hi]

/-- A name that is in the table stays where it is, and another one goes to the end. -/
lemma intern_cases (table : List String) (name : String) :
    (∃ i, table[i]? = some name ∧ intern table name = (table, UInt32.ofNat i))
      ∨ (name ∉ table ∧ intern table name = (table ++ [name], UInt32.ofNat table.length)) := by
  rw [intern, Builder.indexOf?]
  cases h : table.findIdx? (· == name) with
  | some i =>
      obtain ⟨hi, heq, -⟩ := List.findIdx?_eq_some_iff_getElem.1 h
      refine Or.inl ⟨i, ?_, rfl⟩
      rw [List.getElem?_eq_getElem hi, eq_of_beq heq]
  | none =>
      refine Or.inr ⟨fun hmem => ?_, rfl⟩
      have hne := List.findIdx?_eq_none_iff.1 h name hmem
      rw [beq_self_eq_true] at hne
      cases hne

lemma prefix_intern (table : List String) (name : String) : table <+: (intern table name).1 := by
  rcases intern_cases table name with ⟨i, -, h⟩ | ⟨-, h⟩
  · rw [h]
  · rw [h]
    exact List.prefix_append table [name]

/-- The index is one of the name. -/
lemma getElem?_intern (hsize : (intern table name).1.length ≤ UInt32.size) :
    (intern table name).1[(intern table name).2.toNat]? = some name := by
  have hindex : ∀ {i : Nat}, i < UInt32.size → (UInt32.ofNat i).toNat = i := UInt32.toNat_ofNat_of_lt'
  rcases intern_cases table name with ⟨i, hi, h⟩ | ⟨-, h⟩
  · rw [h] at hsize ⊢
    obtain ⟨hlt, -⟩ := List.getElem?_eq_some_iff.1 hi
    rw [hindex (lt_of_lt_of_le hlt hsize), hi]
  · rw [h] at hsize ⊢
    rw [List.length_append, List.length_singleton] at hsize
    rw [hindex hsize, List.getElem?_concat_length]

/-- The table lists these names, each once. -/
def Lists (table : List String) (s : Finset String) : Prop :=
  table.Nodup ∧ ∀ name, name ∈ table ↔ name ∈ s

lemma lists_nil : Lists [] ∅ := ⟨List.nodup_nil, by simp⟩

lemma Lists.length_eq (h : Lists table s) : table.length = s.card := by
  rw [← List.toFinset_card_of_nodup h.1]
  exact congrArg Finset.card (Finset.ext fun name => List.mem_toFinset.trans (h.2 name))

lemma Lists.intern (h : Lists table s) (name : String) : Lists (intern table name).1 (insert name s) := by
  rcases intern_cases table name with ⟨i, hi, hintern⟩ | ⟨hnot, hintern⟩
  · rw [hintern, Finset.insert_eq_of_mem ((h.2 name).1 (List.mem_of_getElem? hi))]
    exact h
  · rw [hintern]
    refine ⟨List.nodup_append.2 ⟨h.1, List.nodup_singleton name, ?_⟩, fun x => ?_⟩
    · rintro x hx y hy rfl
      exact hnot (List.mem_singleton.1 hy ▸ hx)
    · rw [List.mem_append, List.mem_singleton, h.2, Finset.mem_insert, or_comm]

/-! ## Many names -/

/-- The table with all names in it, and an index of each. -/
def internAll (table : List String) : List String → List String × List UInt32
  | [] => (table, [])
  | name :: names =>
    let (table, i) := intern table name
    let (table, is) := internAll table names
    (table, i :: is)

lemma prefix_internAll (table names : List String) : table <+: (internAll table names).1 := by
  induction names generalizing table with
  | nil => exact List.prefix_refl table
  | cons name names ih => exact (prefix_intern table name).trans (ih _)

lemma length_internAll (table names : List String) : (internAll table names).2.length = names.length := by
  induction names generalizing table with
  | nil => rfl
  | cons name names ih =>
      rw [internAll]
      exact congrArg (· + 1) (ih _)

lemma Lists.internAll (h : Lists table s) (names : List String) :
    Lists (internAll table names).1 (s ∪ names.toFinset) := by
  induction names generalizing table s with
  | nil => simpa [SourceMap.internAll] using h
  | cons name names ih =>
      have hrest := ih (h.intern name)
      rw [Finset.insert_union, ← Finset.union_insert, ← List.toFinset_cons] at hrest
      exact hrest

lemma Lists.toFinset_eq (h : Lists table s) : table.toFinset = s :=
  Finset.ext fun name => List.mem_toFinset.trans (h.2 name)

/-- Each name that is added is found at its index. -/
lemma getElem?_internAll (table : List String) {names : List String}
    (hsize : (internAll table names).1.length ≤ UInt32.size) {j : Nat} (hj : names[j]? = some name) :
    ∃ i, (internAll table names).2[j]? = some i
      ∧ (internAll table names).1[i.toNat]? = some name := by
  induction names generalizing table j with
  | nil => cases hj
  | cons first names ih =>
      cases j with
      | zero =>
          cases hj
          have hgrown := prefix_internAll (intern table name).1 names
          have hfound := getElem?_intern (hgrown.length_le.trans hsize)
          exact ⟨_, rfl, getElem?_of_grown hgrown hfound⟩
      | succ j => exact ih (intern table first).1 hsize hj

/-! ## What a mapping says -/

/-- The place that an origin refers to. -/
def Origin.place? (sources names : List String) (o : Origin) : Option Place := do
  let source ← sources[o.source.toNat]?
  match o.name with
  | none => some ⟨source, o.line, o.column, none⟩
  | some i => names[i.toNat]?.map fun name => ⟨source, o.line, o.column, some name⟩

/-- The mapping with its indices looked up. -/
def Mapping.link? (sources names : List String) (m : Mapping) : Option Link :=
  match m.origin with
  | none => some ⟨m.line, m.column, none⟩
  | some o => (o.place? sources names).map fun place => ⟨m.line, m.column, some place⟩

section

variable {sources sources' names names' : List String} {m : Mapping} {l : Link} {o : Origin}
  {p : Place}

lemma Origin.place?_eq_some_iff : o.place? sources names = some p ↔
    sources[o.source.toNat]? = some p.source ∧ o.line = p.line ∧ o.column = p.column
      ∧ Option.Rel (fun (i : UInt32) name => names[i.toNat]? = some name) o.name p.name := by
  obtain ⟨source, line, column, index⟩ := o
  obtain ⟨text, line', column', name⟩ := p
  rw [place?]
  cases sources[source.toNat]? with
  | none => simp
  | some found =>
      cases index with
      | none =>
          cases name with
          | none => simp [Option.rel_none_none]
          | some name => simp
      | some i =>
          cases name with
          | none => simp
          | some name =>
              simp only [Option.bind_eq_bind, Option.bind_some, Option.map_eq_some_iff, Place.mk.injEq,
                Option.some.injEq, Option.rel_some_some]
              constructor
              · rintro ⟨spelling, h, htext, hline, hcolumn, rfl⟩
                exact ⟨htext, hline, hcolumn, h⟩
              · rintro ⟨htext, hline, hcolumn, h⟩
                exact ⟨name, h, htext, hline, hcolumn, rfl⟩

lemma Mapping.link?_eq_some_iff : m.link? sources names = some l ↔ m.line = l.line
    ∧ m.column = l.column ∧ Option.Rel (fun o p => o.place? sources names = some p) m.origin l.place := by
  obtain ⟨line, column, origin⟩ := m
  obtain ⟨line', column', place⟩ := l
  rw [link?]
  cases origin with
  | none =>
      cases place with
      | none => simp [Option.rel_none_none]
      | some p => simp
  | some o =>
      cases place with
      | none => simp
      | some p =>
          simp only [Option.map_eq_some_iff, Link.mk.injEq, Option.some.injEq, Option.rel_some_some]
          constructor
          · rintro ⟨p', h, hline, hcolumn, rfl⟩
            exact ⟨hline, hcolumn, h⟩
          · rintro ⟨hline, hcolumn, h⟩
            exact ⟨p, h, hline, hcolumn, rfl⟩

lemma Mapping.exists_origin (h : m.link? sources names = some l) (hp : l.place = some p) :
    ∃ o, m.origin = some o ∧ o.place? sources names = some p := by
  obtain ⟨line, column, origin⟩ := m
  obtain ⟨-, -, hplace⟩ := link?_eq_some_iff.1 h
  rw [hp] at hplace
  cases hplace with
  | some hsays => exact ⟨_, rfl, hsays⟩

lemma Mapping.exists_place (h : m.link? sources names = some l) (ho : m.origin = some o) :
    ∃ p, l.place = some p ∧ o.place? sources names = some p := by
  obtain ⟨line, column, place⟩ := l
  obtain ⟨-, -, hplace⟩ := link?_eq_some_iff.1 h
  rw [ho] at hplace
  cases hplace with
  | some hsays => exact ⟨_, rfl, hsays⟩

lemma rel_imp {α β : Type} {r r' : α → β → Prop} {x : Option α} {y : Option β}
    (himp : ∀ a b, r a b → r' a b) (h : Option.Rel r x y) : Option.Rel r' x y := by
  cases h with
  | none => exact .none
  | some h => exact .some (himp _ _ h)

/-- What an origin refers to is the same in longer tables. -/
lemma Origin.place?_of_grown (hsources : sources <+: sources') (hnames : names <+: names')
    (h : o.place? sources names = some p) : o.place? sources' names' = some p := by
  rw [place?_eq_some_iff] at h ⊢
  obtain ⟨hsource, hline, hcolumn, hname⟩ := h
  exact ⟨getElem?_of_grown hsources hsource, hline, hcolumn,
    rel_imp (fun _ _ => getElem?_of_grown hnames) hname⟩

/-- What a mapping says is the same in longer tables. -/
lemma Mapping.link?_of_grown (hsources : sources <+: sources') (hnames : names <+: names')
    (h : m.link? sources names = some l) : m.link? sources' names' = some l := by
  rw [link?_eq_some_iff] at h ⊢
  obtain ⟨hline, hcolumn, hplace⟩ := h
  exact ⟨hline, hcolumn, rel_imp (fun _ _ => Origin.place?_of_grown hsources hnames) hplace⟩

lemma exists_getElem?_iff {α : Type} {xs : List α} {i : Nat} :
    (∃ x, xs[i]? = some x) ↔ i < xs.length :=
  ⟨fun ⟨_, h⟩ => (List.getElem?_eq_some_iff.1 h).1, fun h => ⟨_, List.getElem?_eq_getElem h⟩⟩

/-- A mapping says something exactly if it stays within the tables. -/
lemma Mapping.exists_link?_iff :
    (∃ l, m.link? sources names = some l) ↔ m.Within ⟨sources.length, names.length⟩ := by
  obtain ⟨line, column, origin⟩ := m
  cases origin with
  | none => simp [link?, Within]
  | some o =>
      obtain ⟨source, atLine, atColumn, name⟩ := o
      cases name with
      | none => simp [link?, Origin.place?, Within, Option.bind_eq_some_iff, exists_getElem?_iff]
      | some i => simp [link?, Origin.place?, Within, Option.bind_eq_some_iff, exists_getElem?_iff]

end

end Rebuild.SourceMap
