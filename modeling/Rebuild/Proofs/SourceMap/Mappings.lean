import Rebuild.Error
import Rebuild.Proofs.Sorting
import Rebuild.Proofs.SourceMap.Vlq
import Rebuild.Proofs.Text
import Rebuild.SourceMap.Mapping

/-!
# Mappings read back

Sorted mappings that stay within the tables of a map are read back from their text:
`decodeAll_encodeAll`.

* **Order.**  Sorted mappings go line by line, and from left to right on a line (`Ahead`).
* **Reading on.**  `decodeOn` reads from the middle of a line; a separator, and a segment, each lead
  to what is read from there (`decodeOn_semicolon`, `decodeOn_comma`, `decodeOn_segment`).
* **One segment.**  `ofFields_fields`: the differences lead back to the mapping, as the running
  numbers of reader and writer are the same, and have 32 bits (`Cursor.Short`).
-/

namespace Rebuild.SourceMap

namespace Mapping

/-! ## Order -/

/-- The generated position of `a` is not behind that of `b`. -/
def Ahead (a b : Mapping) : Prop := a.line < b.line ∨ (a.line = b.line ∧ a.column ≤ b.column)

lemma ahead_of_notAfter {a b : Mapping} (h : notAfter a b = true) : a.Ahead b := by
  have hkey : ∀ m : Mapping, ∃ rest, m.key = m.line.toNat :: m.column.toNat :: rest := by
    intro m
    rw [key]
    cases m.origin <;> exact ⟨_, rfl⟩
  obtain ⟨restA, hA⟩ := hkey a
  obtain ⟨restB, hB⟩ := hkey b
  rw [notAfter] at h
  have hcompare : compare a b = compare a.key b.key := rfl
  rw [hcompare, hA, hB, List.compare_cons_cons, List.compare_cons_cons,
    Ordering.isLE_then_iff_or, Nat.compare_eq_lt, Nat.compare_eq_eq] at h
  rcases h with h | ⟨hline, h⟩
  · exact Or.inl (UInt32.lt_iff_toNat_lt.2 h)
  · refine Or.inr ⟨UInt32.toNat_inj.1 hline, UInt32.le_iff_toNat_le.2 ?_⟩
    exact Nat.isLE_compare.1 (Ordering.isLE_left_of_isLE_then h)

lemma Ahead.line_le {a b : Mapping} (h : a.Ahead b) : a.line.toNat ≤ b.line.toNat := by
  rcases h with h | ⟨h, -⟩
  · exact Nat.le_of_lt (UInt32.lt_iff_toNat_lt.1 h)
  · rw [h]

lemma pairwise_sort (ms : List Mapping) : (sort ms).Pairwise Ahead :=
  (pairwise_mergeSort ms).imp ahead_of_notAfter

/-- The mappings in order, each once, are the same mappings. -/
@[simp] lemma mem_eraseReps_sort {m : Mapping} {ms : List Mapping} :
    m ∈ (sort ms).eraseReps ↔ m ∈ ms := by
  rw [mem_eraseReps, sort, List.mem_mergeSort]

/-! ## Reading on -/

/-- The mappings that a text writes which begins in the middle of a line. -/
def decodeOn (tables : Tables) (line : UInt32) (column : Int) (cursor : Cursor) (text : List Char) :
    Except Fault (List Mapping) :=
  match Text.split ';' text with
  | [] => .ok []
  | piece :: pieces => do
    let (mappings, cursor) ← decodeLine tables line column cursor (Text.split ',' piece)
    let rest ← decodeLines tables (line + 1) cursor pieces
    return mappings ++ rest

lemma exists_split (sep : Char) (text : List Char) :
    ∃ piece pieces, Text.split sep text = piece :: pieces := by
  cases h : Text.split sep text with
  | nil => exact absurd h (Text.split_ne_nil sep text)
  | cons piece pieces => exact ⟨piece, pieces, rfl⟩

lemma decodeLines_split (tables : Tables) (line : UInt32) (cursor : Cursor) (text : List Char) :
    decodeLines tables line cursor (Text.split ';' text) = decodeOn tables line 0 cursor text := by
  obtain ⟨piece, pieces, h⟩ := exists_split ';' text
  rw [decodeOn, h]
  rfl

lemma decodeAll_eq (tables : Tables) (text : List Char) :
    decodeAll tables text = decodeOn tables 0 0 {} text := decodeLines_split tables 0 {} text

section

variable {tables : Tables} {line : UInt32} {column next : Int} {cursor after : Cursor}
  {text digits : List Char} {m : Mapping} {numbers : List Int64}

/-- After a line the next one begins. -/
lemma decodeOn_semicolon :
    decodeOn tables line column cursor (';' :: text) = decodeOn tables (line + 1) 0 cursor text := by
  have hempty : decodeLine tables line column cursor (Text.split ',' []) = .ok ([], cursor) := rfl
  rw [decodeOn, Text.split_cons_self]
  simp only
  rw [hempty, ok_bind, ← decodeLines_split]
  exact bind_pure (decodeLines tables (line + 1) cursor (Text.split ';' text))

/-- A comma separates nothing from what follows. -/
lemma decodeOn_comma :
    decodeOn tables line column cursor (',' :: text) = decodeOn tables line column cursor text := by
  obtain ⟨piece, pieces, h⟩ := exists_split ';' text
  have hpiece : Text.split ';' (',' :: text) = (',' :: piece) :: pieces :=
    Text.split_append (by decide : ';' ∉ [',']) h
  rw [decodeOn, decodeOn, h, hpiece]
  simp only [Text.split_cons_self, decodeLine]

/-- What a segment may be followed by. -/
def Ends (text : List Char) : Prop := ∀ c ∈ text.head?, c = ',' ∨ c = ';'

lemma decodeLine_cons {segments : List (List Char)} (hne : digits ≠ [])
    (hread : Vlq.decode digits = .ok numbers)
    (hfields : ofFields tables line column cursor numbers = .ok (m, next, after)) :
    decodeLine tables line column cursor (digits :: segments)
      = (decodeLine tables line next after segments).map fun (ms, cursor) => (m :: ms, cursor) := by
  obtain ⟨c, cs, rfl⟩ := List.exists_cons_of_ne_nil hne
  rw [decodeLine]
  · rw [hread]
    simp only [bind, Except.bind]
    rw [hfields]
    simp only
    cases decodeLine tables line next after segments <;> rfl
  · exact hne

/-- A segment is read, and then what follows it. -/
lemma decodeOn_segment (hne : digits ≠ []) (hdigits : ∀ c ∈ digits, c ≠ ',' ∧ c ≠ ';')
    (hread : Vlq.decode digits = .ok numbers)
    (hfields : ofFields tables line column cursor numbers = .ok (m, next, after))
    (hends : Ends text) :
    decodeOn tables line column cursor (digits ++ text)
      = (decodeOn tables line next after text).map (m :: ·) := by
  have hcomma : ',' ∉ digits := fun h => (hdigits _ h).1 rfl
  have hsemicolon : ';' ∉ digits := fun h => (hdigits _ h).2 rfl
  obtain ⟨piece, pieces, h⟩ := exists_split ';' text
  -- The rest of the line begins with a comma, which is skipped, or is empty.
  have hline : decodeLine tables line column cursor (Text.split ',' (digits ++ piece))
      = (decodeLine tables line next after (Text.split ',' piece)).map
        fun (ms, cursor) => (m :: ms, cursor) := by
    cases piece with
    | nil =>
        rw [List.append_nil, Text.split_of_not_mem hcomma, decodeLine_cons hne hread hfields]
        rfl
    | cons c piece =>
        have hc : c = ',' := by
          cases text with
          | nil => simp [Text.split] at h
          | cons c' text =>
              rcases hends c' rfl with rfl | rfl
              · rw [Text.split, if_neg (by decide)] at h
                obtain ⟨first, rest, hrest⟩ := exists_split ';' text
                rw [hrest] at h
                cases h
                rfl
              · rw [Text.split_cons_self] at h
                cases h
        subst hc
        rw [Text.split_append_cons hcomma, decodeLine_cons hne hread hfields, Text.split_cons_self,
          decodeLine]
  rw [decodeOn, decodeOn, h, Text.split_append hsemicolon h]
  simp only [hline]
  cases decodeLine tables line next after (Text.split ',' piece) with
  | error fault => rfl
  | ok found =>
      simp only [Except.map, bind, Except.bind]
      cases decodeLines tables (line + 1) found.2 pieces <;> rfl

/-- Every semicolon leads to the next line. -/
lemma decodeOn_replicate (gap : Nat) :
    decodeOn tables line column cursor (List.replicate gap ';' ++ text)
      = decodeOn tables (line + UInt32.ofNat gap) (if gap = 0 then column else 0) cursor text := by
  induction gap generalizing line column with
  | zero => simp
  | succ gap ih =>
      have hline : line + 1 + UInt32.ofNat gap = line + UInt32.ofNat (gap + 1) := by
        rw [UInt32.ofNat_add, UInt32.add_assoc, UInt32.add_comm 1]
        rfl
      rw [List.replicate_succ, List.cons_append, decodeOn_semicolon, ih, hline, ite_self,
        if_neg (Nat.succ_ne_zero gap)]

end

/-! ## One segment -/

/-- The number has 32 bits. -/
def IsShort (x : Int) : Prop := 0 ≤ x ∧ x < UInt32.size

/-- All running numbers have 32 bits. -/
structure Cursor.Short (c : Cursor) : Prop where
  source : IsShort c.source
  line : IsShort c.line
  column : IsShort c.column
  name : IsShort c.name

/-- The mapping refers to entries of the tables only. -/
def Within (tables : Tables) (m : Mapping) : Prop :=
  ∀ o ∈ m.origin, o.source.toNat < tables.sources ∧ ∀ n ∈ o.name, n.toNat < tables.names

lemma isShort_toNat (x : UInt32) : IsShort x.toNat := ⟨by omega, by exact_mod_cast x.toNat_lt⟩

lemma isShort_zero : IsShort 0 := ⟨le_refl 0, by decide⟩

lemma toInt_ofInt_sub {x y : Int} (hx : IsShort x) (hy : IsShort y) :
    (Int64.ofInt (y - x)).toInt = y - x := by
  have hsize : (UInt32.size : Int) = 2 ^ 32 := rfl
  obtain ⟨hx₀, hx₁⟩ := hx
  obtain ⟨hy₀, hy₁⟩ := hy
  exact Int64.toInt_ofInt_of_le (by omega) (by omega)

/-- A difference leads from one number to the other. -/
lemma advance_ofInt_sub {x y : Int} (hx : IsShort x) (hy : IsShort y) :
    advance x (Int64.ofInt (y - x)) = .ok y := by
  have hsize : (UInt32.size : Int) = 2 ^ 32 := rfl
  have hmin : Int64.minValue.toInt = -2 ^ 63 := rfl
  have hmax : Int64.maxValue.toInt = 2 ^ 63 - 1 := rfl
  obtain ⟨hy₀, hy₁⟩ := id hy
  rw [advance, toInt_ofInt_sub hx hy, show x + (y - x) = y by omega]
  exact if_pos ⟨by omega, by omega⟩

/-- A difference is not the least number. -/
lemma ofInt_sub_ne_minValue {x y : Int} (hx : IsShort x) (hy : IsShort y) :
    Int64.ofInt (y - x) ≠ Int64.minValue := by
  intro h
  have hsize : (UInt32.size : Int) = 2 ^ 32 := rfl
  have hmin : Int64.minValue.toInt = -2 ^ 63 := rfl
  have hsub := toInt_ofInt_sub hx hy
  rw [h, hmin] at hsub
  obtain ⟨hx₀, hx₁⟩ := hx
  obtain ⟨hy₀, hy₁⟩ := hy
  omega

@[simp] lemma toPosition_toNat (x : UInt32) : toPosition x.toNat = .ok x := by
  obtain ⟨hx₀, hx₁⟩ := isShort_toNat x
  rw [toPosition, if_pos ⟨hx₀, hx₁⟩, Int.toNat_natCast, UInt32.ofNat_toNat]

section

variable {tables : Tables} {column : Int} {cursor : Cursor} {m : Mapping} {o : Origin}

/-- The differences to the running numbers lead to the origin, and to its numbers. -/
lemma readOrigin_sub (hcursor : cursor.Short) (hsource : o.source.toNat < tables.sources) :
    readOrigin tables cursor (Int64.ofInt (o.source.toNat - cursor.source))
      (Int64.ofInt (o.line.toNat - cursor.line)) (Int64.ofInt (o.column.toNat - cursor.column))
      = .ok ({ o with name := none }, { cursor with
        source := o.source.toNat, line := o.line.toNat, column := o.column.toNat }) := by
  have hwithin : ¬((o.source.toNat : Int) < 0 ∨ (tables.sources : Int) ≤ o.source.toNat) := by omega
  rw [readOrigin, advance_ofInt_sub hcursor.source (isShort_toNat _), ok_bind,
    advance_ofInt_sub hcursor.line (isShort_toNat _), ok_bind,
    advance_ofInt_sub hcursor.column (isShort_toNat _), ok_bind, if_neg hwithin, toPosition_toNat,
    ok_bind, toPosition_toNat, ok_bind, Int.toNat_natCast, UInt32.ofNat_toNat]
  rfl

lemma readName_sub {n : UInt32} (hname : IsShort cursor.name) (hn : n.toNat < tables.names) :
    readName tables cursor (Int64.ofInt (n.toNat - cursor.name))
      = .ok (n, { cursor with name := n.toNat }) := by
  have hwithin : ¬((n.toNat : Int) < 0 ∨ (tables.names : Int) ≤ n.toNat) := by omega
  rw [readName, advance_ofInt_sub hname (isShort_toNat n), ok_bind, if_neg hwithin,
    Int.toNat_natCast, UInt32.ofNat_toNat]
  rfl

/-- **A segment reads back**: reader and writer have the same running numbers before it, and after
it. -/
lemma ofFields_fields (hm : m.Within tables) (hcolumn : IsShort column) (hcursor : cursor.Short) :
    ofFields tables m.line column cursor (fields column cursor m).1
      = .ok (m, m.column.toNat, (fields column cursor m).2) := by
  obtain ⟨line, atColumn, origin⟩ := m
  have hfirst := advance_ofInt_sub hcolumn (isShort_toNat atColumn)
  cases origin with
  | none =>
      simp only [fields, ofFields]
      rw [hfirst, ok_bind, toPosition_toNat, ok_bind]
      rfl
  | some o =>
      obtain ⟨hsource, hname⟩ := hm o rfl
      have horigin := readOrigin_sub hcursor hsource
      obtain ⟨source, originLine, originColumn, name⟩ := o
      cases name with
      | none =>
          simp only [fields, originFields, ofFields]
          rw [hfirst, ok_bind, toPosition_toNat, ok_bind, horigin, ok_bind]
          rfl
      | some n =>
          have hn : readName tables ⟨source.toNat, originLine.toNat, originColumn.toNat, cursor.name⟩
              (Int64.ofInt (n.toNat - cursor.name)) = .ok (n, _) :=
            readName_sub hcursor.name (hname n rfl)
          simp only [fields, originFields, ofFields, List.cons_append, List.nil_append]
          rw [hfirst, ok_bind, toPosition_toNat, ok_bind, horigin, ok_bind, hn, ok_bind]
          rfl

/-- Running numbers stay within 32 bits. -/
lemma short_fields (hcursor : cursor.Short) : (fields column cursor m).2.Short := by
  obtain ⟨line, atColumn, origin⟩ := m
  cases origin with
  | none => exact hcursor
  | some o =>
      obtain ⟨source, originLine, originColumn, name⟩ := o
      cases name with
      | none => exact ⟨isShort_toNat _, isShort_toNat _, isShort_toNat _, hcursor.name⟩
      | some n => exact ⟨isShort_toNat _, isShort_toNat _, isShort_toNat _, isShort_toNat _⟩

lemma fields_ne_nil : (fields column cursor m).1 ≠ [] := by
  rw [fields]
  cases m.origin <;> simp

/-- No field is the least number. -/
lemma ne_minValue_of_mem_fields (hcolumn : IsShort column) (hcursor : cursor.Short) :
    ∀ v ∈ (fields column cursor m).1, v ≠ Int64.minValue := by
  obtain ⟨line, atColumn, origin⟩ := m
  have hfirst := ofInt_sub_ne_minValue hcolumn (isShort_toNat atColumn)
  cases origin with
  | none => exact List.forall_mem_singleton.2 hfirst
  | some o =>
      obtain ⟨source, originLine, originColumn, name⟩ := o
      have hsource := ofInt_sub_ne_minValue hcursor.source (isShort_toNat source)
      have hline := ofInt_sub_ne_minValue hcursor.line (isShort_toNat originLine)
      have hlast := ofInt_sub_ne_minValue hcursor.column (isShort_toNat originColumn)
      cases name with
      | none =>
          simp only [fields, originFields, List.forall_mem_cons]
          exact ⟨hfirst, hsource, hline, hlast, List.forall_mem_nil _⟩
      | some n =>
          have hname := ofInt_sub_ne_minValue hcursor.name (isShort_toNat n)
          simp only [fields, originFields, List.cons_append, List.nil_append, List.forall_mem_cons]
          exact ⟨hfirst, hsource, hline, hlast, hname, List.forall_mem_nil _⟩

end

/-! ## All mappings -/

/-- What follows a mapping begins with a separator. -/
lemma ends_encodeFrom (line : Nat) (column : Int) (cursor : Cursor) (ms : List Mapping) :
    Ends (encodeFrom line column true cursor ms) := by
  intro c hc
  cases ms with
  | nil => cases hc
  | cons m ms =>
      rw [encodeFrom] at hc
      cases hgap : m.line.toNat - line with
      | zero =>
          rw [hgap] at hc
          exact Or.inl (Option.some.inj hc).symm
      | succ gap =>
          rw [hgap] at hc
          exact Or.inr (Option.some.inj hc).symm

/-- What is written after some mappings of a line is read from there. -/
lemma decodeOn_encodeFrom {tables : Tables} {ms : List Mapping} {line : UInt32} {column : Int}
    {opened : Bool} {cursor : Cursor} (hsorted : ms.Pairwise Ahead)
    (hline : ∀ m ∈ ms, line.toNat ≤ m.line.toNat) (hms : ∀ m ∈ ms, m.Within tables)
    (hcolumn : IsShort column) (hcursor : cursor.Short) :
    decodeOn tables line column cursor (encodeFrom line.toNat column opened cursor ms) = .ok ms := by
  induction ms generalizing line column opened cursor with
  | nil => rfl
  | cons m ms ih =>
      obtain ⟨hahead, hrest⟩ := List.pairwise_cons.1 hsorted
      have hle := hline m List.mem_cons_self
      generalize hgap : m.line.toNat - line.toNat = gap
      have hto : line.toNat + gap = m.line.toNat := by omega
      have hnow : line + UInt32.ofNat gap = m.line := by
        rw [← UInt32.ofNat_toNat (x := line), ← UInt32.ofNat_add, hto, UInt32.ofNat_toNat]
      have hfrom : IsShort (if gap = 0 then column else 0) := by
        split_ifs
        · exact hcolumn
        · exact isShort_zero
      have hskip : ∀ (separated : Bool) (text : List Char),
          decodeOn tables m.line (if gap = 0 then column else 0) cursor
              ((if separated then [','] else []) ++ text)
            = decodeOn tables m.line (if gap = 0 then column else 0) cursor text := by
        rintro ⟨⟩ text
        · rfl
        · exact decodeOn_comma
      rw [encodeFrom, hgap]
      simp only [List.append_assoc]
      rw [decodeOn_replicate, hnow, hskip,
        decodeOn_segment (Vlq.encodeAll_ne_nil fields_ne_nil) (fun c hc => Vlq.ne_of_mem_encodeAll hc)
          (Vlq.decode_encodeAll (ne_minValue_of_mem_fields hfrom hcursor))
          (ofFields_fields (hms m List.mem_cons_self) hfrom hcursor) (ends_encodeFrom _ _ _ _), hto,
        ih hrest (fun x hx => (hahead x hx).line_le) (fun x hx => hms x (List.mem_cons_of_mem _ hx))
          (isShort_toNat _) (short_fields hcursor)]
      rfl

/-- **Mappings read back.**  Mappings that go from line to line and stay within the tables are read
back from their text. -/
theorem decodeAll_encodeAll {tables : Tables} {ms : List Mapping} (hsorted : ms.Pairwise Ahead)
    (hms : ∀ m ∈ ms, m.Within tables) : decodeAll tables (encodeAll ms) = .ok ms := by
  rw [decodeAll_eq, encodeAll]
  exact decodeOn_encodeFrom hsorted (fun m _ => Nat.zero_le _) hms isShort_zero
    ⟨isShort_zero, isShort_zero, isShort_zero, isShort_zero⟩

end Mapping
end Rebuild.SourceMap
