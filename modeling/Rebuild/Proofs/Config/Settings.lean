import Mathlib.Tactic.Common
import Rebuild.Config.Layer

/-!
# What a configuration file says

A file says of each setting nothing or one value of its kind, and nothing else.  `Layer.Tells` has one
equation for each setting: what is found under its name is the written form of what the layer gives.
`Layer.kinds` lists the kinds of all settings, so that a file is refused exactly if a name is not in
the list or a value is not of its kind (`Toml.Fits`).

* **Values.**  `Toml.setting?_eq_some_iff`: a reader that undoes a written form finds exactly that.
* **Sections.**  `Toml.Lists`: a table has its members by name, a list by their places.
* **Endpoints.**  `Layer.ofToml?_eq_some_iff` and `Layer.exists_tells_iff`.
-/

namespace Rebuild

namespace Toml

variable {α : Type} {v : Toml} {members inner : Members} {name text : String} {names xs : List String}
  {n : Nat}

/-! ## Values -/

/-- A list of strings, as it is written. -/
def ofStrings (xs : List String) : Toml := .array (xs.map string)

/-- A natural number, as it is written. -/
def ofNat (n : Nat) : Toml := .integer n

lemma string?_eq_some_iff : string? v = some text ↔ v = .string text := by
  cases v <;> simp [string?]

lemma nat?_eq_some_iff : nat? v = some n ↔ v = ofNat n := by
  rw [ofNat]
  cases v with
  | integer value =>
      cases value with
      | ofNat m => simp only [nat?, Option.some.injEq, integer.injEq, Int.ofNat_eq_natCast,
          Int.natCast_inj]
      | negSucc m => simp only [nat?, reduceCtorEq, integer.injEq]
  | string | array | table => simp [nat?]

lemma mapM_string?_eq_some_iff {items : List Toml} :
    items.mapM string? = some xs ↔ items = xs.map string := by
  induction items generalizing xs with
  | nil => cases xs <;> simp
  | cons item items ih =>
      simp only [List.mapM_cons, Option.bind_eq_bind, Option.bind_eq_some_iff, string?_eq_some_iff, ih,
        Option.pure_def, Option.some.injEq]
      cases xs with
      | nil => simp
      | cons x xs => simp

lemma strings?_eq_some_iff : strings? v = some xs ↔ v = ofStrings xs := by
  rw [ofStrings]
  cases v with
  | array items => simp [strings?, mapM_string?_eq_some_iff]
  | string | integer | table => simp [strings?]

/-- **What is found under a name is the written form of what is read**, if the reader undoes it. -/
lemma setting?_eq_some_iff {read : Toml → Option α} {write : α → Toml}
    (h : ∀ v x, read v = some x ↔ v = write x) {x : Option α} :
    setting? read members name = some x ↔ members.lookup name = x.map write := by
  rw [setting?]
  cases members.lookup name with
  | none => cases x <;> simp
  | some v => cases x <;> simp [h]

lemma setting?_string_iff {x : Option String} :
    setting? string? members name = some x ↔ members.lookup name = x.map string :=
  setting?_eq_some_iff fun _ _ => string?_eq_some_iff

lemma setting?_nat_iff {x : Option Nat} :
    setting? nat? members name = some x ↔ members.lookup name = x.map ofNat :=
  setting?_eq_some_iff fun _ _ => nat?_eq_some_iff

lemma setting?_strings_iff {x : Option (List String)} :
    setting? strings? members name = some x ↔ members.lookup name = x.map ofStrings :=
  setting?_eq_some_iff fun _ _ => strings?_eq_some_iff

/-! ## Sections -/

/-- The value has these members: a table by their names, where it has no others than `names`, and a
list by their places, where it may go on. -/
inductive Lists (names : List String) : Toml → Members → Prop where
  | table {isOpen : Bool} {members : Members} (h : ∀ m ∈ members, m.1 ∈ names) :
    Lists names (.table isOpen members) members
  | array {values more : List Toml} (h : values.length = names.length) :
    Lists names (.array (values ++ more)) (names.zip values)

lemma zip_take_length (names : List String) (items : List Toml) :
    names.zip (items.take names.length) = names.zip items := by
  induction names generalizing items with
  | nil => rfl
  | cons name names ih => cases items <;> simp [ih]

lemma fields?_eq_some_iff : fields? names v = some inner ↔ Lists names v inner := by
  constructor
  · intro h
    cases v with
    | table isOpen members =>
        rw [fields?, Option.ite_none_right_eq_some] at h
        obtain ⟨hall, h⟩ := h
        cases h
        exact .table (by simpa using hall)
    | array items =>
        rw [fields?, Option.ite_none_right_eq_some] at h
        obtain ⟨hle, h⟩ := h
        cases h
        rw [← zip_take_length]
        nth_rewrite 1 [← List.take_append_drop names.length items]
        exact .array (List.length_take_of_le hle)
    | string | integer => cases h
  · rintro (hall | hlength)
    · rw [fields?, if_pos (by simpa using hall)]
    · rename_i values more
      rw [fields?, if_pos (by simp [hlength]), ← zip_take_length, ← hlength, List.take_left]

/-- The members of a section, which has none if it is absent. -/
def Section (members : Members) (name : String) (names : List String) (inner : Members) : Prop :=
  match members.lookup name with
  | none => inner = []
  | some v => Lists names v inner

lemma section_iff : Section members name names inner
    ↔ ∃ found, setting? (fields? names) members name = some found ∧ found.getD [] = inner := by
  rw [Section, setting?]
  cases members.lookup name with
  | none => simp [eq_comm]
  | some v => simp [← fields?_eq_some_iff]

/-! ## Kinds -/

/-- The kind of values that are written in this way. -/
def WrittenBy (write : α → Toml) (v : Toml) : Prop := ∃ x, v = write x

/-- The members have no other names than these, and values of their kinds. -/
structure Fits (kinds : List (String × (Toml → Prop))) (members : Members) : Prop where
  known : ∀ m ∈ members, m.1 ∈ kinds.map Prod.fst
  kind : ∀ k ∈ kinds, ∀ v, members.lookup k.1 = some v → k.2 v

/-- The kind of sections with members of these kinds. -/
def IsSection (kinds : List (String × (Toml → Prop))) (v : Toml) : Prop :=
  ∃ members, Lists (kinds.map Prod.fst) v members ∧ Fits kinds members

lemma Lists.known (h : Lists names v inner) : ∀ m ∈ inner, m.1 ∈ names := by
  cases h with
  | table hall => exact hall
  | array hlength => exact fun m hm => (List.of_mem_zip (b := m.2) hm).1

/-- The strings under a name, of which there are none if it is absent. -/
lemma exists_lookup_eq_map_of_getD (h : (members.lookup name).getD (ofStrings []) = ofStrings xs) :
    ∃ found : Option (List String),
      members.lookup name = found.map ofStrings ∧ found.getD [] = xs := by
  have hinjective : ∀ ys, ofStrings ys = ofStrings xs → ys = xs := by
    intro ys hys
    exact Option.some.inj ((strings?_eq_some_iff.2 rfl).symm.trans (strings?_eq_some_iff.2 hys))
  cases hfound : members.lookup name with
  | none => exact ⟨none, rfl, hinjective [] (by rwa [hfound] at h)⟩
  | some v => exact ⟨some xs, congrArg some (by rwa [hfound] at h), rfl⟩

/-- Values of a kind can be read. -/
lemma exists_lookup_eq_map_iff {write : α → Toml} : (∃ x : Option α, members.lookup name = x.map write)
    ↔ ∀ v, members.lookup name = some v → WrittenBy write v := by
  cases members.lookup name with
  | none => exact iff_of_true ⟨none, rfl⟩ fun v hv => by cases hv
  | some v =>
      constructor
      · rintro ⟨x, hx⟩ _ hv
        cases hv
        cases x with
        | none => cases hx
        | some x => exact ⟨x, Option.some.inj hx⟩
      · intro h
        obtain ⟨x, hx⟩ := h v rfl
        exact ⟨some x, congrArg some hx⟩

end Toml

namespace Layer

variable {path : Path} {members : Toml.Members} {l : Layer}

/-! ## Settings -/

/-- The layer gives what the members of a file say. -/
structure Tells (path : Path) (members : Toml.Members) (l : Layer) : Prop where
  known : ∀ m ∈ members,
    m.1 ∈ ["cache_dir", "workers", "queue_capacity", "debounce_ms", "watch", "compile"]
  cacheDir : members.lookup "cache_dir" = l.cacheDir.map fun dir => .string dir.text
  workers : members.lookup "workers" = l.workers.map Toml.ofNat
  queueCapacity : members.lookup "queue_capacity" = l.queueCapacity.map Toml.ofNat
  debounceMs : members.lookup "debounce_ms" = l.debounceMs.map Toml.ofNat
  watch : ∃ inner, Toml.Section members "watch" ["patterns", "ignored"] inner
    ∧ inner.lookup "patterns" = l.patterns.map Toml.ofStrings
    ∧ (inner.lookup "ignored").getD (Toml.ofStrings []) = Toml.ofStrings l.ignored
  compile : ∃ inner, Toml.Section members "compile" ["concurrency"] inner
    ∧ inner.lookup "concurrency" = l.concurrency.map Toml.ofNat
  source : l.source = some (.file path)

/-- The settings of a file and their kinds. -/
def kinds : List (String × (Toml → Prop)) :=
  [("cache_dir", Toml.WrittenBy Toml.string), ("workers", Toml.WrittenBy Toml.ofNat),
    ("queue_capacity", Toml.WrittenBy Toml.ofNat), ("debounce_ms", Toml.WrittenBy Toml.ofNat),
    ("watch", Toml.IsSection
      [("patterns", Toml.WrittenBy Toml.ofStrings), ("ignored", Toml.WrittenBy Toml.ofStrings)]),
    ("compile", Toml.IsSection [("concurrency", Toml.WrittenBy Toml.ofNat)])]

/-- The names at the top of a file. -/
lemma fields?_table_iff {names : List String} {inner : Toml.Members} :
    Toml.fields? names (.table false members) = some inner
      ↔ (∀ m ∈ members, m.1 ∈ names) ∧ inner = members := by
  rw [Toml.fields?, Option.ite_none_right_eq_some, List.all_eq_true, Option.some.injEq]
  exact and_congr (by simp) eq_comm

/-- **A file gives a layer exactly if its members say so.** -/
lemma ofToml?_eq_some_iff : ofToml? path members = some l ↔ Tells path members l := by
  simp only [ofToml?, Option.bind_eq_bind, Option.bind_eq_some_iff, Option.pure_def,
    Option.some.injEq, fields?_table_iff, Toml.setting?_string_iff, Toml.setting?_nat_iff,
    Toml.setting?_strings_iff]
  constructor
  · rintro ⟨_, ⟨hknown, rfl⟩, watch, hwatch, compile, hcompile, ignored, hignored, dir, hdir, workers,
      hworkers, queueCapacity, hqueue, debounceMs, hdebounce, concurrency, hconcurrency, patterns,
      hpatterns, rfl⟩
    refine ⟨hknown, ?_, hworkers, hqueue, hdebounce, ⟨_, Toml.section_iff.2 ⟨watch, hwatch, rfl⟩,
      hpatterns, ?_⟩, ⟨_, Toml.section_iff.2 ⟨compile, hcompile, rfl⟩, hconcurrency⟩, rfl⟩
    · rw [hdir, Option.map_map]
      rfl
    · rw [hignored]
      cases ignored <;> rfl
  · rintro ⟨hknown, hdir, hworkers, hqueue, hdebounce, ⟨_, hwatch, hpatterns, hignored⟩,
      ⟨_, hcompile, hconcurrency⟩, hsource⟩
    obtain ⟨watch, hfields, rfl⟩ := Toml.section_iff.1 hwatch
    obtain ⟨compile, hfield, rfl⟩ := Toml.section_iff.1 hcompile
    obtain ⟨ignored, hfound, hvalue⟩ := Toml.exists_lookup_eq_map_of_getD hignored
    refine ⟨_, ⟨hknown, rfl⟩, watch, hfields, compile, hfield, ignored, hfound,
      l.cacheDir.map Path.text, ?_, _, hworkers, _, hqueue, _, hdebounce, _, hconcurrency, _, hpatterns,
      ?_⟩
    · rw [hdir, Option.map_map]
      rfl
    · rw [Option.map_map, ← hsource, hvalue]
      obtain ⟨dir, _⟩ := l
      cases dir <;> rfl

/-- There are members of these kinds in a section, or it is absent. -/
lemma exists_section_iff {name : String} {kinds : List (String × (Toml → Prop))} :
    (∃ inner, Toml.Section members name (kinds.map Prod.fst) inner
        ∧ ∀ k ∈ kinds, ∀ v, inner.lookup k.1 = some v → k.2 v)
      ↔ ∀ v, members.lookup name = some v → Toml.IsSection kinds v := by
  simp only [Toml.Section]
  cases members.lookup name with
  | none => simp
  | some v =>
      simp only [Option.some.injEq, forall_eq', Toml.IsSection]
      exact exists_congr fun inner => and_congr_right fun hlists =>
        ⟨fun hkind => ⟨hlists.known, hkind⟩, Toml.Fits.kind⟩

/-- **A file gives a layer exactly if every name is one of a setting, and every value is of its
kind.** -/
lemma exists_tells_iff : (∃ l, Tells path members l) ↔ Toml.Fits kinds members := by
  constructor
  · rintro ⟨l, h⟩
    refine ⟨h.known, ?_⟩
    simp only [kinds, List.forall_mem_cons, List.not_mem_nil, false_imp_iff, implies_true, and_true]
    refine ⟨?_, ?_, ?_, ?_, ?_, ?_⟩
    · rw [← Toml.exists_lookup_eq_map_iff]
      exact ⟨l.cacheDir.map Path.text, h.cacheDir.trans (Option.map_map ..).symm⟩
    · exact Toml.exists_lookup_eq_map_iff.1 ⟨_, h.workers⟩
    · exact Toml.exists_lookup_eq_map_iff.1 ⟨_, h.queueCapacity⟩
    · exact Toml.exists_lookup_eq_map_iff.1 ⟨_, h.debounceMs⟩
    · obtain ⟨inner, hsection, hpatterns, hignored⟩ := h.watch
      refine exists_section_iff.1 ⟨inner, hsection, ?_⟩
      obtain ⟨ignored, hfound, -⟩ := Toml.exists_lookup_eq_map_of_getD hignored
      simp only [List.forall_mem_cons, List.not_mem_nil, false_imp_iff, implies_true, and_true]
      exact ⟨Toml.exists_lookup_eq_map_iff.1 ⟨_, hpatterns⟩,
        Toml.exists_lookup_eq_map_iff.1 ⟨_, hfound⟩⟩
    · obtain ⟨inner, hsection, hconcurrency⟩ := h.compile
      refine exists_section_iff.1 ⟨inner, hsection, ?_⟩
      simp only [List.forall_mem_cons, List.not_mem_nil, false_imp_iff, implies_true, and_true]
      exact Toml.exists_lookup_eq_map_iff.1 ⟨_, hconcurrency⟩
  · rintro ⟨hknown, hkind⟩
    simp only [kinds, List.forall_mem_cons, List.not_mem_nil, false_imp_iff, implies_true, and_true,
      ← exists_section_iff, ← Toml.exists_lookup_eq_map_iff] at hkind
    obtain ⟨⟨dir, hdir⟩, ⟨workers, hworkers⟩, ⟨queueCapacity, hqueue⟩, ⟨debounceMs, hdebounce⟩,
      ⟨watch, hwatch, ⟨patterns, hpatterns⟩, ⟨ignored, hignored⟩⟩,
      ⟨compile, hcompile, ⟨concurrency, hconcurrency⟩⟩⟩ := hkind
    refine ⟨{
      cacheDir := dir.map Path.mk, workers, queueCapacity, debounceMs, concurrency, patterns
      ignored := ignored.getD [], source := some (.file path) }, hknown, ?_, hworkers, hqueue, hdebounce,
      ⟨watch, hwatch, hpatterns, ?_⟩, ⟨compile, hcompile, hconcurrency⟩, rfl⟩
    · rw [hdir, Option.map_map]
      rfl
    · rw [hignored]
      cases ignored <;> rfl

end Layer
end Rebuild
