import Rebuild.Proofs.SourceMap.Reopening

/-!
# Finding the mapping that answers

A resolver looks through its sorted mappings.  What it finds can be said of the mappings of the map as
they were read, in any order and with repetitions: `find?_iff_governs`.

* **Order.**  Mappings are compared by their numbers, which are different for different mappings
  (`key_injective`), so there is one greatest and one least.
* **The specification.**  `Governs` is a plain scan for them (`Governs.unique`).
* **Halving.**  Three searches by halving find the same mapping (`search?_eq_find?`), as what lies
  before a position is a first part of a sorted list.
-/

namespace Rebuild

/-! ## Halving -/

section

variable {α : Type} {p : α → Bool} {xs : List α}

/-- How many elements come before the first one that `p` fails of, where `p` holds of a first part of
the list and of nothing else.  Every look at the middle leaves one half. -/
def partitionPoint (p : α → Bool) (xs : List α) : Nat :=
  match h : xs.drop (xs.length / 2) with
  | [] => 0
  | x :: rest =>
    if p x then xs.length / 2 + 1 + partitionPoint p rest
    else partitionPoint p (xs.take (xs.length / 2))
termination_by xs.length
decreasing_by
  all_goals
    have hlength := congrArg List.length h
    simp only [List.length_drop, List.length_cons, List.length_take] at hlength ⊢
    omega

/-- Behind an element that `p` fails of, it holds of nothing. -/
lemma countP_eq_zero_of_head {x : α} (h : (x :: xs).Pairwise fun a b => p b = true → p a = true)
    (hx : ¬p x = true) : xs.countP p = 0 := by
  simp only [List.countP_eq_zero]
  intro y hy hpy
  exact hx (List.rel_of_pairwise_cons h hy hpy)

/-- What `p` holds of is a first part of the list. -/
lemma take_countP (h : xs.Pairwise fun a b => p b = true → p a = true) :
    xs.take (xs.countP p) = xs.filter p := by
  induction xs with
  | nil => rfl
  | cons x xs ih =>
      by_cases hx : p x = true
      · simp [hx, ih h.of_cons]
      · have hrest := countP_eq_zero_of_head h hx
        have hfilter := List.countP_eq_zero.1 hrest
        simp [hx, hrest, List.filter_eq_nil_iff.2 hfilter]

/-- What `p` fails of is the rest of the list. -/
lemma drop_countP (h : xs.Pairwise fun a b => p b = true → p a = true) :
    xs.drop (xs.countP p) = xs.filter fun x => !p x := by
  induction xs with
  | nil => rfl
  | cons x xs ih =>
      by_cases hx : p x = true
      · simp [hx, ih h.of_cons]
      · have hrest := countP_eq_zero_of_head h hx
        have hfilter := List.countP_eq_zero.1 hrest
        have hall : (xs.filter fun y => !p y) = xs := by
          rw [List.filter_eq_self]
          intro y hy
          simp [hfilter y hy]
        simp [hx, hrest, hall]

/-- Halving counts the elements that `p` holds of. -/
lemma partitionPoint_eq_countP (h : xs.Pairwise fun a b => p b = true → p a = true) :
    partitionPoint p xs = xs.countP p := by
  fun_induction partitionPoint p xs with
  | case1 xs hdrop =>
      have hlength := List.drop_eq_nil_iff.1 hdrop
      have hempty : xs = [] := List.length_eq_zero_iff.1 (by omega)
      simp [hempty]
  | case2 xs x rest hdrop hx ih =>
      have hsplit : xs.take (xs.length / 2) ++ x :: rest = xs := by
        rw [← hdrop, List.take_append_drop]
      rw [← hsplit, List.pairwise_append] at h
      obtain ⟨-, hback, hacross⟩ := h
      have hfront : (xs.take (xs.length / 2)).countP p = xs.length / 2 := by
        have hall : ∀ a ∈ xs.take (xs.length / 2), p a = true :=
          fun a ha => hacross a ha x List.mem_cons_self hx
        rw [List.countP_eq_length.2 hall, List.length_take]
        omega
      rw [ih hback.of_cons]
      conv_rhs => rw [← hsplit]
      simp only [List.countP_append, List.countP_cons, hfront, hx, if_true]
      omega
  | case3 xs x rest hdrop hx ih =>
      have hsplit : xs.take (xs.length / 2) ++ x :: rest = xs := by
        rw [← hdrop, List.take_append_drop]
      rw [← hsplit, List.pairwise_append] at h
      obtain ⟨hfront, hback, -⟩ := h
      rw [ih hfront]
      conv_rhs => rw [← hsplit]
      simp [hx, countP_eq_zero_of_head hback hx]

end

namespace SourceMap

/-! ## Order -/

namespace Mapping

variable {a b : Mapping}

lemma indexRank_injective : Function.Injective indexRank := by
  intro i j h
  cases i with
  | none => cases j with
    | none => rfl
    | some j => simp [indexRank] at h
  | some i => cases j with
    | none => simp [indexRank] at h
    | some j =>
        simp only [indexRank, Nat.add_right_cancel_iff] at h
        rw [UInt32.toNat_inj.1 h]

/-- Different mappings have different numbers. -/
lemma key_injective : Function.Injective key := by
  rintro ⟨line, column, origin⟩ ⟨line', column', origin'⟩ h
  cases origin with
  | none => cases origin' with
    | none => simp_all [key, UInt32.toNat_inj]
    | some o' => simp [key] at h
  | some o => cases origin' with
    | none => simp [key] at h
    | some o' =>
        obtain ⟨source, atLine, atColumn, name⟩ := o
        obtain ⟨source', atLine', atColumn', name'⟩ := o'
        simp only [key, List.cons.injEq, UInt32.toNat_inj, and_true] at h
        obtain ⟨rfl, rfl, rfl, rfl, rfl, hname⟩ := h
        rw [indexRank_injective hname]

/-- Of two different mappings, one comes after the other. -/
lemma eq_of_notAfter (h : notAfter a b = true) (h' : notAfter b a = true) : a = b := by
  have hcompare : compare a.key b.key = .eq := Std.OrientedCmp.isLE_antisymm h h'
  exact key_injective (Std.LawfulEqOrd.eq_of_compare hcompare)

lemma notAfter_refl (a : Mapping) : notAfter a a = true := by
  have hcompare : compare a a = compare a.key a.key := rfl
  rw [notAfter, hcompare, Std.ReflOrd.compare_self]
  rfl

end Mapping

/-! ## The specification -/

/-- The mappings on a line that have an origin. -/
def mappedOn (ms : List Mapping) (line : UInt32) : List Mapping :=
  ms.filter fun m => m.origin.isSome && m.line == line

/-- Of these mappings, `m` is the greatest that is not behind the column or, if all are behind it, the
least. -/
def Governs (onLine : List Mapping) (column : UInt32) (m : Mapping) : Prop :=
  m ∈ onLine ∧ ((m.column ≤ column ∧ ∀ x ∈ onLine, x.column ≤ column → x.notAfter m = true)
    ∨ ∀ x ∈ onLine, column < x.column ∧ m.notAfter x = true)

instance (onLine : List Mapping) (column : UInt32) (m : Mapping) :
    Decidable (Governs onLine column m) :=
  inferInstanceAs (Decidable (_ ∧ (_ ∨ _)))

section

variable {ms onLine onLine' : List Mapping} {line column : UInt32} {m m' : Mapping}

lemma mem_mappedOn : m ∈ mappedOn ms line ↔ m ∈ ms ∧ m.origin.isSome = true ∧ m.line = line := by
  simp [mappedOn]

/-- One mapping governs a column at most. -/
lemma Governs.unique (h : Governs onLine column m) (h' : Governs onLine column m') : m = m' := by
  obtain ⟨hm, h⟩ := h
  obtain ⟨hm', h'⟩ := h'
  rcases h with ⟨hle, hmax⟩ | hmin
  · rcases h' with ⟨hle', hmax'⟩ | hmin'
    · exact Mapping.eq_of_notAfter (hmax' m hm hle) (hmax m' hm' hle')
    · exact absurd hle (UInt32.not_le.2 (hmin' m hm).1)
  · rcases h' with ⟨hle', -⟩ | hmin'
    · exact absurd hle' (UInt32.not_le.2 (hmin m' hm').1)
    · exact Mapping.eq_of_notAfter (hmin m' hm').2 (hmin' m hm).2

/-- The order of the mappings does not matter. -/
lemma Governs.congr (h : ∀ m, m ∈ onLine ↔ m ∈ onLine') :
    Governs onLine column m ↔ Governs onLine' column m := by
  simp only [Governs, h]

end

/-! ## Halving the mappings -/

namespace Resolver

/-- Where a generated position comes from, found by halving: the mappings of the line stand between
two places of the list, and what answers is the last one before a third. -/
def search? (r : Resolver) (line column : UInt32) : Option OriginalPosition := do
  let start := partitionPoint (·.line < line) r.mappings
  let stop := partitionPoint (·.line ≤ line) r.mappings
  let onLine := (r.mappings.take stop).drop start
  let mapping ←
    match partitionPoint (·.column ≤ column) onLine with
    | 0 => onLine.head?
    | n + 1 => onLine[n]?
  let origin ← mapping.origin
  r.resolve? origin

end Resolver

section

variable {ms onLine : List Mapping}

/-- The mappings of a line stand between those before it and those behind it. -/
lemma drop_take_partitionPoint (h : ms.Pairwise Mapping.Ahead) (line : UInt32) :
    (ms.take (partitionPoint (·.line ≤ line) ms)).drop (partitionPoint (·.line < line) ms)
      = ms.filter (·.line == line) := by
  have hlines : ms.Pairwise fun a b => a.line ≤ b.line := by
    refine h.imp fun {a b} hab => ?_
    exact UInt32.le_iff_toNat_le.2 hab.line_le
  have hbefore : ms.Pairwise fun a b => decide (b.line < line) = true → decide (a.line < line) = true := by
    refine hlines.imp fun {a b} hab hb => ?_
    simp only [decide_eq_true_eq] at hb ⊢
    exact UInt32.lt_of_le_of_lt hab hb
  have hupTo : ms.Pairwise fun a b => decide (b.line ≤ line) = true → decide (a.line ≤ line) = true := by
    refine hlines.imp fun {a b} hab hb => ?_
    simp only [decide_eq_true_eq] at hb ⊢
    exact UInt32.le_trans hab hb
  -- What comes before the line is counted among what does not come behind it.
  have hcount : ms.countP (·.line < line)
      = (ms.filter (·.line ≤ line)).countP (·.line < line) := by
    rw [List.countP_filter]
    refine List.countP_congr fun m _ => ?_
    simp only [decide_eq_true_eq, Bool.and_eq_true]
    exact ⟨fun hlt => ⟨hlt, UInt32.le_of_lt hlt⟩, And.left⟩
  rw [partitionPoint_eq_countP hbefore, partitionPoint_eq_countP hupTo, take_countP hupTo, hcount,
    drop_countP (hbefore.filter _), List.filter_filter]
  refine List.filter_congr fun m _ => ?_
  rw [Bool.eq_iff_iff]
  simp only [Bool.and_eq_true, Bool.not_eq_true', decide_eq_false_iff_not, decide_eq_true_eq,
    beq_iff_eq, UInt32.not_lt]
  exact ⟨fun ⟨hge, hle⟩ => UInt32.le_antisymm hle hge, fun heq => by simp [heq]⟩

/-- The mapping that is chosen stands before the first one behind the column. -/
lemma choose?_eq_partitionPoint (h : onLine.Pairwise fun a b => a.column ≤ b.column)
    (column : UInt32) : choose? onLine column =
      match partitionPoint (·.column ≤ column) onLine with
      | 0 => onLine.head?
      | n + 1 => onLine[n]? := by
  have hupTo : onLine.Pairwise fun a b =>
      decide (b.column ≤ column) = true → decide (a.column ≤ column) = true := by
    refine h.imp fun {a b} hab hb => ?_
    simp only [decide_eq_true_eq] at hb ⊢
    exact UInt32.le_trans hab hb
  have hle : onLine.countP (·.column ≤ column) ≤ onLine.length := List.countP_le_length
  rw [choose?, partitionPoint_eq_countP hupTo, ← take_countP hupTo]
  cases hcount : onLine.countP (·.column ≤ column) with
  | zero => simp
  | succ n =>
      have hfound : onLine[n]? = some onLine[n] := List.getElem?_eq_getElem (by omega)
      simp [List.getLast?_take, hfound]

/-- Halving finds what looking through all mappings finds. -/
lemma Resolver.search?_eq_find? {r : Resolver} (h : r.mappings.Pairwise Mapping.Ahead)
    (line column : UInt32) : r.search? line column = r.find? line column := by
  rw [search?, find?, choose?_eq_partitionPoint (pairwise_onLine h line), ← drop_take_partitionPoint h]
  dsimp only
  split <;> rfl

end

/-! ## The mappings of a map -/

section

variable {map : SourceMap} {ms : List Mapping} {m : Mapping} {line column : UInt32}

/-- The mappings that a resolver looks at on a line, in order. -/
lemma pairwise_reading_onLine (map : SourceMap) (ms : List Mapping) (line : UInt32) :
    ((Resolver.reading map ms).mappings.filter (·.line == line)).Pairwise
      fun a b => a.notAfter b = true := (pairwise_mergeSort _).filter _

/-- They are the mappings on the line that have an origin. -/
lemma mem_onLine_iff_mem_mappedOn :
    m ∈ (Resolver.reading map ms).mappings.filter (·.line == line) ↔ m ∈ mappedOn ms line :=
  mem_onLine.trans mem_mappedOn.symm

/-- What is found is nothing on a line without origins, and otherwise the place of the mapping that
governs the column. -/
lemma find?_reading_cases (hms : ∀ m ∈ ms, m.Within ⟨map.sources.length, map.names.length⟩)
    (line column : UInt32) :
    (mappedOn ms line = [] ∧ (Resolver.reading map ms).find? line column = none)
      ∨ ∃ m o p, Governs (mappedOn ms line) column m ∧ m.origin = some o
        ∧ o.place? map.sources map.names = some p
        ∧ (Resolver.reading map ms).find? line column
          = some ⟨underRoot (map.sourceRoot.getD "") p.source, p.line, p.column, p.name⟩ := by
  rw [Resolver.find?]
  rcases choose?_cases Mapping.notAfter_refl (pairwise_reading_onLine map ms line) column with
    ⟨hempty, hchoose⟩ | ⟨m, hmem, hchoose, hgoverns⟩
  · refine Or.inl ⟨?_, by rw [hchoose]; rfl⟩
    rw [List.eq_nil_iff_forall_not_mem] at hempty ⊢
    intro m hm
    exact hempty m (mem_onLine_iff_mem_mappedOn.2 hm)
  · obtain ⟨hm, horigin, -⟩ := mem_onLine.1 hmem
    obtain ⟨o, ho⟩ := Option.isSome_iff_exists.1 horigin
    obtain ⟨l, hl⟩ := Mapping.exists_link?_iff.2 (hms m hm)
    obtain ⟨p, -, hp⟩ := Mapping.exists_place hl ho
    have hgoverns' : Governs (mappedOn ms line) column m :=
      (Governs.congr fun _ => mem_onLine_iff_mem_mappedOn).1 ⟨hmem, hgoverns⟩
    refine Or.inr ⟨m, o, p, hgoverns', ho, hp, ?_⟩
    simp only [hchoose, Option.bind_eq_bind, Option.bind_some, ho]
    exact Resolver.resolve?_reading ms hp

/-- **Looking up is a scan.**  If a map can be read, then its mappings stay within its tables, and a
position is looked up, by a scan or by halving, as they say: nothing is found exactly if no mapping
with an origin lies on the line, and otherwise the place of the one that governs the column. -/
theorem find?_iff_governs {r : Resolver} (h : Resolver.ofMap map = .ok r) :
    ∃ ms, map.decode = .ok ms ∧ (∀ m ∈ ms, m.Within ⟨map.sources.length, map.names.length⟩)
      ∧ ∀ line column, r.search? line column = r.find? line column
        ∧ (r.find? line column = none ↔ ∀ m ∈ ms, m.line = line → m.origin = none)
        ∧ ∀ found, r.find? line column = some found ↔ ∃ m o p,
          Governs (mappedOn ms line) column m ∧ m.origin = some o
            ∧ o.place? map.sources map.names = some p
            ∧ found = ⟨underRoot (map.sourceRoot.getD "") p.source, p.line, p.column, p.name⟩ := by
  simp only [Resolver.ofMap, bind_eq_ok_iff] at h
  obtain ⟨ms, hdecode, hr⟩ := h
  have hreading : r = .reading map ms := (Except.ok.inj hr).symm
  have hwithin := within_of_decode hdecode
  have hnone : ∀ line, mappedOn ms line = [] ↔ ∀ m ∈ ms, m.line = line → m.origin = none := by
    intro line
    simp [mappedOn, List.filter_eq_nil_iff, Option.isSome_iff_ne_none, imp_not_comm]
  subst hreading
  refine ⟨ms, hdecode, hwithin, fun line column => ⟨?_, ?_, fun found => ?_⟩⟩
  · exact Resolver.search?_eq_find? (pairwise_reading map ms) line column
  · rw [← hnone line]
    rcases find?_reading_cases hwithin line column with ⟨hempty, hfind⟩ | ⟨m, o, p, hgoverns, -, -, hfind⟩
    · simp [hempty, hfind]
    · simp [hfind, List.ne_nil_of_mem hgoverns.1]
  · rcases find?_reading_cases hwithin line column with ⟨hempty, hfind⟩ | ⟨m, o, p, hgoverns, ho, hp, hfind⟩
    · simp [hempty, hfind, Governs]
    · rw [hfind, Option.some.injEq]
      constructor
      · intro hfound
        exact ⟨m, o, p, hgoverns, ho, hp, hfound.symm⟩
      · rintro ⟨m', o', p', hgoverns', ho', hp', rfl⟩
        cases hgoverns.unique hgoverns'
        cases ho.symm.trans ho'
        cases hp.symm.trans hp'
        rfl

/-- A map whose line goes back and forth, with a repeated source, a segment without an origin, and two
segments in one column. -/
def backAndForth : SourceMap where
  sourceRoot := some "src"
  sources := ["a", "b", "a"]
  names := ["f"]
  mappings := "QCAA,NAACA,C,CCAA,ADAA"

/-- Of the two segments in one column the greater one counts, though it comes first, and before all
columns the least one. -/
theorem find?_iff_governs_backAndForth : ∃ r, Resolver.ofMap backAndForth = .ok r
    ∧ r.find? 0 5 = some ⟨"src/a", 0, 1, none⟩ ∧ r.find? 0 0 = some ⟨"src/b", 0, 1, some "f"⟩
    ∧ r.find? 1 0 = none := by
  have hdecode : backAndForth.decode = .ok [⟨0, 8, some ⟨1, 0, 0, none⟩⟩,
      ⟨0, 2, some ⟨1, 0, 1, some 0⟩⟩, ⟨0, 3, none⟩, ⟨0, 4, some ⟨2, 0, 1, none⟩⟩,
      ⟨0, 4, some ⟨1, 0, 1, none⟩⟩] := by decide
  have hresolver := Resolver.ofMap_of_decode hdecode
  obtain ⟨ms, hms, -, hfind⟩ := find?_iff_governs hresolver
  cases hdecode.symm.trans hms
  refine ⟨_, hresolver, ?_, ?_, ?_⟩
  · refine ((hfind 0 5).2.2 _).2 ⟨⟨0, 4, some ⟨2, 0, 1, none⟩⟩, _, ⟨"a", 0, 1, none⟩, ?_, rfl, ?_, ?_⟩
    · decide
    · decide
    · decide +kernel
  · refine ((hfind 0 0).2.2 _).2
      ⟨⟨0, 2, some ⟨1, 0, 1, some 0⟩⟩, _, ⟨"b", 0, 1, some "f"⟩, ?_, rfl, ?_, ?_⟩
    · decide
    · decide
    · decide +kernel
  · exact ((hfind 1 0).2.1).2 (by decide)

end

end SourceMap
end Rebuild
