import Rebuild.Proofs.Json.Scalars
import Rebuild.Text.Basic

/-!
# Texts of a value

A value can be spelled in many ways, with blanks before every token (`Spells`).  The reader reads
every spelling (`Spells.read`, `parse?_of_spells`), and indented text is one (`spells_pretty`); so what
is written reads back, as long as it holds no fraction and is not nested too deep (`Plain`):
`parse?_pretty`.
-/

namespace Rebuild.Json

/-! ## Spellings -/

/-- Blanks only. -/
def Blanks (cs : List Char) : Prop := ∀ c ∈ cs, isBlank c = true

/-- A value that holds no other value and whose text reads back. -/
def Scalar : Json → Prop
  | .null => True
  | .bool _ => True
  | .string _ => True
  | .number (.integer i) => IsWord i
  | _ => False

/-- A member as it is written. -/
structure Member where
  before : List Char
  name : String
  text : List Char
  value : Json

/-- The text of a member. -/
def Member.spelling (m : Member) : List Char := m.before ++ (quoted m.name ++ ':' :: m.text)

/-- The text is one of the value, which is nested at most `depth` deep. -/
inductive Spells : Nat → List Char → Json → Prop where
  | scalar {depth : Nat} {v : Json} (h : Scalar v) : Spells depth (scalarText v) v
  | blanks {depth : Nat} {before text : List Char} {v : Json} (hbefore : Blanks before)
      (h : Spells depth text v) : Spells depth (before ++ text) v
  | array {depth : Nat} {closing : List Char} {items : List (List Char × Json)}
      (hclosing : Blanks closing) (h : ∀ x ∈ items, Spells depth x.1 x.2) :
      Spells (depth + 1) ('[' :: (Text.join [','] (items.map Prod.fst) ++ (closing ++ [']'])))
        (.array (items.map Prod.snd))
  | object {depth : Nat} {closing : List Char} {members : List Member} (hclosing : Blanks closing)
      (hbefore : ∀ m ∈ members, Blanks m.before) (h : ∀ m ∈ members, Spells depth m.text m.value) :
      Spells (depth + 1)
        ('{' :: (Text.join [','] (members.map Member.spelling) ++ (closing ++ ['}'])))
        (.object (members.map fun m => (m.name, m.value)))

/-! ## Tokens -/

lemma blanks_nil : Blanks [] := fun _ hc => absurd hc List.not_mem_nil

lemma skip_append {before : List Char} (h : Blanks before) (cs : List Char) :
    skip (before ++ cs) = skip cs := by
  induction before with
  | nil => rfl
  | cons c before ih =>
      have hc : isBlank c = true := h c List.mem_cons_self
      have hrest := ih fun d hd => h d (List.mem_cons_of_mem _ hd)
      rw [skip, List.cons_append, List.dropWhile_cons, if_pos hc]
      exact hrest

lemma skip_cons {c : Char} (h : isBlank c = false) (cs : List Char) : skip (c :: cs) = c :: cs := by
  rw [skip, List.dropWhile_cons, if_neg (by simp [h])]

lemma ends_append {closing : List Char} {c : Char} (hclosing : Blanks closing)
    (hc : c = ',' ∨ c = ']' ∨ c = '}') (rest : List Char) : Ends (closing ++ c :: rest) := by
  cases closing with
  | nil =>
      intro d hd
      cases hd
      rcases hc with rfl | rfl | rfl <;> decide
  | cons b closing =>
      have hblank := hclosing b List.mem_cons_self
      intro d hd
      cases hd
      simp only [isBlank, Bool.or_eq_true, beq_iff_eq] at hblank
      rcases hblank with ((rfl | rfl) | rfl) | rfl <;> decide

lemma ends_comma (rest : List Char) : Ends (',' :: rest) :=
  ends_append blanks_nil (Or.inl rfl) rest

variable {cs front after rest : List Char} {n : Nat}

lemma readSeparator_comma {close : Char} (h : skip cs = ',' :: rest) :
    (readSeparator close cs).map Subtype.val = some (true, rest) := by
  rw [readSeparator]
  split
  · rename_i heq
    cases heq.symm.trans h
    rfl
  · rename_i heq
    cases heq.symm.trans h

lemma readSeparator_close {close : Char} (hclose : close ≠ ',') (h : skip cs = close :: rest) :
    (readSeparator close cs).map Subtype.val = some (false, rest) := by
  rw [readSeparator]
  split
  · rename_i heq
    cases heq.symm.trans h
    rw [if_neg hclose, if_pos rfl]
    rfl
  · rename_i heq
    cases heq.symm.trans h

lemma readSeparator_eq_none {close c : Char} (hcomma : c ≠ ',') (hclose : c ≠ close)
    (h : skip cs = c :: rest) : readSeparator close cs = none := by
  rw [readSeparator]
  split
  · rename_i heq
    cases heq.symm.trans h
    rw [if_neg hcomma, if_neg hclose]
  · rename_i heq
    cases heq.symm.trans h

lemma readName_eq {name : String} (h : skip cs = quoted name ++ after)
    (hafter : skip after = ':' :: rest) :
    (readName cs).map Subtype.val = some (name, rest) := by
  have hstring :
      readString (name.toList.flatMap escapeChar ++ '"' :: after) [] = some (name, after) := by
    rw [readString_escaped, List.reverse_nil, List.nil_append, String.ofList_toList]
  have hskip : skip cs = '"' :: (name.toList.flatMap escapeChar ++ '"' :: after) := by
    rw [h]
    simp [quoted]
  rw [readName]
  split
  · rename_i front heq
    cases heq.symm.trans hskip
    split
    · rename_i name' after' hread
      cases hread.symm.trans hstring
      split
      · rename_i final hcolon
        cases hcolon.symm.trans hafter
        rfl
      · rename_i hne
        exact absurd hafter (hne _)
    · rename_i hread
      cases hread.symm.trans hstring
  · rename_i hne
    exact absurd hskip (hne _)

/-! ## Values -/

lemma readValue_array {items : List Json} (h : skip cs = '[' :: front)
    (hseparator : readSeparator ']' front = none)
    (hitems : (readItems n front).map Subtype.val = some (items, after)) :
    (readValue (n + 1) cs).map Subtype.val = some (.array items, after) := by
  obtain ⟨⟨result, hlt⟩, hread, rfl⟩ := Option.map_eq_some_iff.1 hitems
  rw [readValue]
  split
  · rename_i rest heq
    cases heq.symm.trans h
    simp only [hseparator, hread, Option.map_some]
  · rename_i rest heq
    cases heq.symm.trans h
  · rename_i hne _
    exact absurd h (hne _)

lemma readValue_empty_array (h : skip cs = '[' :: front)
    (hseparator : (readSeparator ']' front).map Subtype.val = some (false, after)) :
    (readValue (n + 1) cs).map Subtype.val = some (.array [], after) := by
  obtain ⟨⟨result, hlt⟩, hread, rfl⟩ := Option.map_eq_some_iff.1 hseparator
  rw [readValue]
  split
  · rename_i rest heq
    cases heq.symm.trans h
    simp only [hread, Option.map_some]
  · rename_i rest heq
    cases heq.symm.trans h
  · rename_i hne _
    exact absurd h (hne _)

lemma readValue_object {members : List (String × Json)} (h : skip cs = '{' :: front)
    (hseparator : readSeparator '}' front = none)
    (hmembers : (readMembers n front).map Subtype.val = some (members, after)) :
    (readValue (n + 1) cs).map Subtype.val = some (.object members, after) := by
  obtain ⟨⟨result, hlt⟩, hread, rfl⟩ := Option.map_eq_some_iff.1 hmembers
  rw [readValue]
  split
  · rename_i rest heq
    cases heq.symm.trans h
  · rename_i rest heq
    cases heq.symm.trans h
    simp only [hseparator, hread, Option.map_some]
  · rename_i hne
    exact absurd h (hne _)

lemma readValue_empty_object (h : skip cs = '{' :: front)
    (hseparator : (readSeparator '}' front).map Subtype.val = some (false, after)) :
    (readValue (n + 1) cs).map Subtype.val = some (.object [], after) := by
  obtain ⟨⟨result, hlt⟩, hread, rfl⟩ := Option.map_eq_some_iff.1 hseparator
  rw [readValue]
  split
  · rename_i rest heq
    cases heq.symm.trans h
  · rename_i rest heq
    cases heq.symm.trans h
    simp only [hread, Option.map_some]
  · rename_i hne
    exact absurd h (hne _)

lemma readValue_scalar {v : Json} (harray : ∀ r, skip cs ≠ '[' :: r)
    (hobject : ∀ r, skip cs ≠ '{' :: r)
    (hread : readScalar (skip cs) = some (v, rest)) (hlt : rest.length < (skip cs).length) :
    (readValue n cs).map Subtype.val = some (v, rest) := by
  rw [readValue]
  split
  · rename_i rest heq
    exact absurd heq (harray _)
  · rename_i rest heq
    exact absurd heq (hobject _)
  · simp only [hread, shorter?, hlt]
    rfl

lemma readItems_last {v : Json} (hvalue : (readValue n cs).map Subtype.val = some (v, after))
    (hclose : (readSeparator ']' after).map Subtype.val = some (false, rest)) :
    (readItems n cs).map Subtype.val = some ([v], rest) := by
  obtain ⟨⟨result, hlt⟩, hread, rfl⟩ := Option.map_eq_some_iff.1 hvalue
  obtain ⟨⟨result', hlt'⟩, hread', rfl⟩ := Option.map_eq_some_iff.1 hclose
  rw [readItems]
  simp only [hread, hread', Option.map_some]

lemma readItems_cons {v : Json} {items : List Json} {final : List Char}
    (hvalue : (readValue n cs).map Subtype.val = some (v, after))
    (hcomma : (readSeparator ']' after).map Subtype.val = some (true, rest))
    (hitems : (readItems n rest).map Subtype.val = some (items, final)) :
    (readItems n cs).map Subtype.val = some (v :: items, final) := by
  obtain ⟨⟨result, hlt⟩, hread, rfl⟩ := Option.map_eq_some_iff.1 hvalue
  obtain ⟨⟨result', hlt'⟩, hread', rfl⟩ := Option.map_eq_some_iff.1 hcomma
  obtain ⟨⟨result'', hlt''⟩, hread'', rfl⟩ := Option.map_eq_some_iff.1 hitems
  rw [readItems]
  simp only [hread, hread', hread'', Option.map_some]

lemma readMembers_last {name : String} {v : Json} {final : List Char}
    (hname : (readName cs).map Subtype.val = some (name, front))
    (hvalue : (readValue n front).map Subtype.val = some (v, after))
    (hclose : (readSeparator '}' after).map Subtype.val = some (false, final)) :
    (readMembers n cs).map Subtype.val = some ([(name, v)], final) := by
  obtain ⟨⟨result, hlt⟩, hread, rfl⟩ := Option.map_eq_some_iff.1 hname
  obtain ⟨⟨result', hlt'⟩, hread', rfl⟩ := Option.map_eq_some_iff.1 hvalue
  obtain ⟨⟨result'', hlt''⟩, hread'', rfl⟩ := Option.map_eq_some_iff.1 hclose
  rw [readMembers]
  simp only [hread, hread', hread'', Option.map_some]

lemma readMembers_cons {name : String} {v : Json} {members : List (String × Json)}
    {final : List Char}
    (hname : (readName cs).map Subtype.val = some (name, front))
    (hvalue : (readValue n front).map Subtype.val = some (v, after))
    (hcomma : (readSeparator '}' after).map Subtype.val = some (true, rest))
    (hmembers : (readMembers n rest).map Subtype.val = some (members, final)) :
    (readMembers n cs).map Subtype.val = some ((name, v) :: members, final) := by
  obtain ⟨⟨result, hlt⟩, hread, rfl⟩ := Option.map_eq_some_iff.1 hname
  obtain ⟨⟨result', hlt'⟩, hread', rfl⟩ := Option.map_eq_some_iff.1 hvalue
  obtain ⟨⟨result'', hlt''⟩, hread'', rfl⟩ := Option.map_eq_some_iff.1 hcomma
  obtain ⟨⟨result₃, hlt₃⟩, hread₃, rfl⟩ := Option.map_eq_some_iff.1 hmembers
  rw [readMembers]
  simp only [hread, hread', hread'', hread₃, Option.map_some]

/-! ## Lists of items and members -/

lemma skip_closing {closing : List Char} {c : Char} (hclosing : Blanks closing)
    (hc : isBlank c = false)
    (rest : List Char) : skip (closing ++ c :: rest) = c :: rest := by
  rw [skip_append hclosing, skip_cons hc]

/-- Items are read one by one, up to the bracket. -/
lemma readItems_join {closing : List Char} (hclosing : Blanks closing) (rest : List Char)
    (items : List (List Char × Json)) (hne : items ≠ [])
    (h : ∀ x ∈ items, ∀ after, Ends after →
      (readValue n (x.1 ++ after)).map Subtype.val = some (x.2, after)) :
    (readItems n (Text.join [','] (items.map Prod.fst) ++ (closing ++ ']' :: rest))).map Subtype.val
      = some (items.map Prod.snd, rest) := by
  induction items with
  | nil => exact absurd rfl hne
  | cons x items ih =>
      have hx := h x List.mem_cons_self
      cases items with
      | nil =>
          have hends : Ends (closing ++ ']' :: rest) :=
            ends_append hclosing (Or.inr (Or.inl rfl)) rest
          exact readItems_last (hx _ hends)
            (readSeparator_close (by decide) (skip_closing hclosing (by decide) rest))
      | cons y items =>
          have htail := ih (by simp) fun z hz => h z (List.mem_cons_of_mem _ hz)
          have htext : Text.join [','] ((x :: y :: items).map Prod.fst) ++ (closing ++ ']' :: rest)
              = x.1 ++ ',' :: (Text.join [','] ((y :: items).map Prod.fst)
                ++ (closing ++ ']' :: rest)) := by
            simp [Text.join]
          rw [htext]
          exact readItems_cons (hx _ (ends_comma _))
            (readSeparator_comma (skip_cons (by decide) _)) htail

/-- Members are read one by one, up to the brace. -/
lemma readMembers_join {closing : List Char} (hclosing : Blanks closing) (rest : List Char)
    (members : List Member) (hne : members ≠ []) (hbefore : ∀ m ∈ members, Blanks m.before)
    (h : ∀ m ∈ members, ∀ after, Ends after →
      (readValue n (m.text ++ after)).map Subtype.val = some (m.value, after)) :
    (readMembers n (Text.join [','] (members.map Member.spelling)
        ++ (closing ++ '}' :: rest))).map Subtype.val
      = some (members.map fun m => (m.name, m.value), rest) := by
  have hname : ∀ m ∈ members, ∀ after,
      (readName (m.spelling ++ after)).map Subtype.val = some (m.name, m.text ++ after) := by
    intro m hm after
    have hquote : isBlank '"' = false := by decide
    have hcolon : skip (':' :: (m.text ++ after)) = ':' :: (m.text ++ after) :=
      skip_cons (by decide) _
    refine readName_eq ?_ hcolon
    simp only [Member.spelling, quoted, List.append_assoc, List.cons_append]
    rw [skip_append (hbefore m hm), skip_cons hquote]
  induction members with
  | nil => exact absurd rfl hne
  | cons m members ih =>
      have hm := h m List.mem_cons_self
      have hmname := hname m List.mem_cons_self
      cases members with
      | nil =>
          have hends : Ends (closing ++ '}' :: rest) :=
            ends_append hclosing (Or.inr (Or.inr rfl)) rest
          exact readMembers_last (hmname _) (hm _ hends)
            (readSeparator_close (by decide) (skip_closing hclosing (by decide) rest))
      | cons m' members =>
          have htail := ih (by simp) (fun x hx => hbefore x (List.mem_cons_of_mem _ hx))
            (fun x hx => h x (List.mem_cons_of_mem _ hx))
            (fun x hx => hname x (List.mem_cons_of_mem _ hx))
          have htext :
              Text.join [','] ((m :: m' :: members).map Member.spelling) ++ (closing ++ '}' :: rest)
                = m.spelling ++ ',' :: (Text.join [','] ((m' :: members).map Member.spelling)
                  ++ (closing ++ '}' :: rest)) := by
            simp [Text.join]
          rw [htext]
          exact readMembers_cons (hmname _) (hm _ (ends_comma _))
            (readSeparator_comma (skip_cons (by decide) _)) htail

/-! ## Reading a spelling -/

/-- What a spelling begins with. -/
def Opens (c : Char) : Prop := isBlank c = false ∧ c ≠ ',' ∧ c ≠ ']' ∧ c ≠ '}'

instance (c : Char) : Decidable (Opens c) :=
  inferInstanceAs (Decidable (isBlank c = false ∧ c ≠ ',' ∧ c ≠ ']' ∧ c ≠ '}'))

lemma opens_isDigit {c : Char} (h : c.isDigit = true) : Opens c := by
  refine ⟨?_, ?_, ?_, ?_⟩
  · cases hblank : isBlank c with
    | false => rfl
    | true =>
        simp only [isBlank, Bool.or_eq_true, beq_iff_eq] at hblank
        rcases hblank with ((rfl | rfl) | rfl) | rfl <;> cases h
  all_goals
    rintro rfl
    cases h

/-- The text of an integer begins with a digit or a sign. -/
lemma exists_integer_text (i : Int) : ∃ c cs, i.repr.toList = c :: cs
    ∧ (c.isDigit = true ∨ c = '-') := by
  rw [Int.repr_eq_if]
  split_ifs
  · rw [Nat.toList_repr]
    cases hdigits : Nat.toDigits 10 i.toNat with
    | nil => exact absurd hdigits Nat.toDigits_ne_nil
    | cons c cs => exact ⟨c, cs, rfl, Or.inl (isDigit_toDigits (hdigits ▸ List.mem_cons_self))⟩
  · exact ⟨'-', _, by rw [String.toList_append]; rfl, Or.inr rfl⟩

lemma readScalar_integer {i : Int} (hi : IsWord i) (h : Ends rest) :
    readScalar (i.repr.toList ++ rest) = some (.number (.integer i), rest) := by
  have hread := readNumber_integer hi h
  obtain ⟨c, cs, htext, hc⟩ := exists_integer_text i
  rw [htext] at hread ⊢
  rw [readScalar.eq_def]
  have hfirst : ∀ {d : Char} {ds : List Char}, c :: cs ++ rest = d :: ds →
      d.isDigit = true ∨ d = '-' := by
    intro d ds heq
    rwa [← (List.cons.inj heq).1]
  split
  all_goals rename_i heq
  · rcases hfirst heq with hc | hc <;> cases hc
  · rcases hfirst heq with hc | hc <;> cases hc
  · rcases hfirst heq with hc | hc <;> cases hc
  · rcases hfirst heq with hc | hc <;> cases hc
  · rw [hread]
    rfl

lemma exists_scalarText {v : Json} (hv : Scalar v) :
    ∃ c cs, scalarText v = c :: cs ∧ Opens c ∧ c ≠ '[' ∧ c ≠ '{' := by
  cases v with
  | null => exact ⟨'n', _, rfl, by decide⟩
  | bool b =>
      cases b with
      | true => exact ⟨'t', _, rfl, by decide⟩
      | false => exact ⟨'f', _, rfl, by decide⟩
  | string s => exact ⟨'"', _, rfl, by decide⟩
  | number number =>
      cases number with
      | float bits => exact absurd hv id
      | integer i =>
          obtain ⟨c, cs, htext, hc⟩ := exists_integer_text i
          refine ⟨c, cs, htext, ?_⟩
          rcases hc with hc | rfl
          · refine ⟨opens_isDigit hc, ?_, ?_⟩ <;> rintro rfl <;> cases hc
          · decide
  | array items => exact absurd hv id
  | object members => exact absurd hv id

lemma readScalar_scalarText {v : Json} (hv : Scalar v) (h : Ends rest) :
    readScalar (scalarText v ++ rest) = some (v, rest) := by
  cases v with
  | null => rfl
  | bool b => cases b <;> rfl
  | string s =>
      have hread := readString_escaped s.toList rest []
      rw [List.reverse_nil, List.nil_append, String.ofList_toList] at hread
      have htext : scalarText (.string s) ++ rest
          = '"' :: (s.toList.flatMap escapeChar ++ '"' :: rest) := by
        simp [scalarText, quoted]
      rw [htext]
      show (readString _ []).map _ = _
      rw [hread]
      rfl
  | number number =>
      cases number with
      | float bits => exact absurd hv id
      | integer i => exact readScalar_integer hv h
  | array items => exact absurd hv id
  | object members => exact absurd hv id

/-- After the blanks, a spelling begins with a token of its own. -/
lemma Spells.opens {text : List Char} {v : Json} (h : Spells n text v) (rest : List Char) :
    ∃ c cs, skip (text ++ rest) = c :: cs ∧ Opens c := by
  induction h with
  | scalar hv =>
      obtain ⟨c, cs, htext, hopens, -⟩ := exists_scalarText hv
      exact ⟨c, cs ++ rest, by rw [htext]; exact skip_cons hopens.1 _, hopens⟩
  | blanks hbefore _ ih =>
      rw [List.append_assoc, skip_append hbefore]
      exact ih
  | array => exact ⟨_, _, skip_cons (by decide) _, by decide⟩
  | object => exact ⟨_, _, skip_cons (by decide) _, by decide⟩

/-- A list of texts begins as the first one does. -/
lemma exists_join_opens {first : List Char}
    (hfirst : ∀ rest, ∃ c cs, skip (first ++ rest) = c :: cs ∧ Opens c)
    (texts : List (List Char)) (rest : List Char) :
    ∃ c cs, skip (Text.join [','] (first :: texts) ++ rest) = c :: cs ∧ Opens c := by
  cases texts with
  | nil => exact hfirst rest
  | cons next texts =>
      rw [Text.join, List.append_assoc, List.append_assoc]
      exact hfirst _

/-- **Every spelling reads back**, also after blanks. -/
theorem Spells.read {text : List Char} {v : Json} (h : Spells n text v) (hrest : Ends rest)
    (hcs : skip cs = skip (text ++ rest)) : (readValue n cs).map Subtype.val = some (v, rest) := by
  induction h generalizing rest cs with
  | @scalar depth v hv =>
      obtain ⟨c, more, htext, hopens, harray, hobject⟩ := exists_scalarText hv
      have hskip : skip cs = scalarText v ++ rest := by
        rw [hcs, htext]
        exact skip_cons hopens.1 _
      have hfirst : ∀ {d : Char} {ds : List Char}, skip cs = d :: ds → c = d := by
        intro d ds heq
        rw [hskip, htext] at heq
        exact (List.cons.inj heq).1
      refine readValue_scalar (fun _ heq => harray (hfirst heq))
        (fun _ heq => hobject (hfirst heq)) ?_ ?_
      · rw [hskip]
        exact readScalar_scalarText hv hrest
      · rw [hskip, htext]
        simp only [List.cons_append, List.length_cons, List.length_append]
        omega
  | @blanks depth before text v hbefore _ ih =>
      refine ih hrest ?_
      rw [hcs, List.append_assoc, skip_append hbefore]
  | @array depth closing items hclosing h ih =>
      have hskip : skip cs =
          '[' :: (Text.join [','] (items.map Prod.fst) ++ (closing ++ ']' :: rest)) := by
        rw [hcs, List.cons_append, skip_cons (by decide)]
        simp
      cases items with
      | nil =>
          exact readValue_empty_array hskip
            (readSeparator_close (by decide) (skip_closing hclosing (by decide) rest))
      | cons x items =>
          obtain ⟨c, more, hfirst, hopens⟩ := exists_join_opens (h x List.mem_cons_self).opens
            (items.map Prod.fst) (closing ++ ']' :: rest)
          have hitems := readItems_join hclosing rest (x :: items) (by simp)
            fun y hy after hafter => ih y hy hafter rfl
          exact readValue_array hskip (readSeparator_eq_none hopens.2.1 hopens.2.2.1 hfirst) hitems
  | @object depth closing members hclosing hbefore h ih =>
      have hskip : skip cs = '{' :: (Text.join [','] (members.map Member.spelling)
          ++ (closing ++ '}' :: rest)) := by
        rw [hcs, List.cons_append, skip_cons (by decide)]
        simp
      cases members with
      | nil =>
          exact readValue_empty_object hskip
            (readSeparator_close (by decide) (skip_closing hclosing (by decide) rest))
      | cons m members =>
          have hopens : ∀ rest, ∃ c cs, skip (m.spelling ++ rest) = c :: cs ∧ Opens c := by
            intro rest
            have hspelling : m.spelling ++ rest = m.before
                ++ '"' :: (m.name.toList.flatMap escapeChar ++ '"' :: ':' :: (m.text ++ rest)) := by
              simp [Member.spelling, quoted]
            rw [hspelling]
            exact ⟨_, _, skip_closing (hbefore m List.mem_cons_self) (by decide) _, by decide⟩
          obtain ⟨c, more, hfirst, hopens⟩ := exists_join_opens hopens
            (members.map Member.spelling) (closing ++ '}' :: rest)
          have hmembers := readMembers_join hclosing rest (m :: members) (by simp) hbefore
            fun x hx after hafter => ih x hx hafter rfl
          exact readValue_object hskip
            (readSeparator_eq_none hopens.2.1 hopens.2.2.2 hfirst) hmembers

/-- A text is read as the value that it spells. -/
theorem parse?_of_spells {text : List Char} {v : Json} (h : Spells maxDepth text v) :
    parse? (String.ofList text) = some v := by
  have hends : Ends [] := by simp [Ends]
  have htext : skip (String.ofList text).toList = skip (text ++ []) := by
    rw [String.toList_ofList, List.append_nil]
  have hread := h.read hends htext
  obtain ⟨⟨result, hlt⟩, hread, rfl⟩ := Option.map_eq_some_iff.1 hread
  rw [parse?]
  simp only [hread]
  rfl

/-! ## Indented text -/

/-- A value that reads back: without fractions, its integers of 64 bits, nested at most so deep. -/
inductive Plain : Nat → Json → Prop where
  | scalar {depth : Nat} {v : Json} (h : Scalar v) : Plain depth v
  | array {depth : Nat} {items : List Json} (h : ∀ v ∈ items, Plain depth v) :
      Plain (depth + 1) (.array items)
  | object {depth : Nat} {members : List (String × Json)} (h : ∀ m ∈ members, Plain depth m.2) :
      Plain (depth + 1) (.object members)

lemma plain_strings (n : Nat) (items : List String) : Plain (n + 1) (strings items) := by
  refine .array fun v hv => ?_
  obtain ⟨s, -, rfl⟩ := List.mem_map.1 hv
  exact .scalar trivial

lemma plain_optionalMember {name : String} {w : Option Json} (h : ∀ v ∈ w, Plain n v) :
    ∀ m ∈ optionalMember name w, Plain n m.2 := by
  cases w with
  | none => exact List.forall_mem_nil _
  | some v => exact List.forall_mem_singleton.2 (h v rfl)

lemma blanks_newLine (level : Nat) : Blanks (newLine level) := by
  intro c hc
  rcases List.mem_cons.1 hc with rfl | hc
  · decide
  · rw [List.eq_of_mem_replicate hc]
    decide

/-- What writes the pieces one by one, with commas between them, joins them. -/
lemma eq_join_map {α : Type} {write : α → List Char} {writeAll : List α → List Char}
    (hnil : writeAll [] = []) (hone : ∀ x, writeAll [x] = write x)
    (hmore : ∀ x next xs, writeAll (x :: next :: xs) = write x ++ ',' :: writeAll (next :: xs))
    (xs : List α) : writeAll xs = Text.join [','] (xs.map write) := by
  induction xs with
  | nil => rw [hnil, List.map_nil, Text.join]
  | cons x xs ih =>
      cases xs with
      | nil => rw [hone, List.map_cons, List.map_nil, Text.join]
      | cons next xs =>
          rw [hmore, ih]
          simp [Text.join]

lemma prettyItems_eq (level : Nat) (items : List Json) :
    prettyItems level items
      = Text.join [','] (items.map fun v => newLine level ++ prettyChars level v) := by
  refine eq_join_map (by rw [prettyItems]) (fun v => ?_) (fun v next items => ?_) items
  all_goals rw [prettyItems]

lemma prettyMembers_eq (level : Nat) (members : List (String × Json)) :
    prettyMembers level members = Text.join [','] (members.map fun m =>
      newLine level ++ (quoted m.1 ++ ':' :: ' ' :: prettyChars level m.2)) := by
  refine eq_join_map (by rw [prettyMembers]) (fun m => ?_) (fun m next members => ?_) members
  all_goals
    rw [prettyMembers]
    simp

/-- Indented text is a spelling. -/
lemma spells_pretty {v : Json} (h : Plain n v) (level : Nat) :
    Spells n (prettyChars level v) v := by
  induction h generalizing level with
  | @scalar depth v hv =>
      have htext : prettyChars level v = scalarText v := by
        cases v with
        | array items => exact absurd hv id
        | object members => exact absurd hv id
        | null | bool | number | string => simp [prettyChars]
      rw [htext]
      exact .scalar hv
  | @array depth items h ih =>
      let spelled (v : Json) : List Char × Json :=
        (newLine (level + 1) ++ prettyChars (level + 1) v, v)
      have hitems : ∀ x ∈ items.map spelled, Spells depth x.1 x.2 := by
        intro x hx
        obtain ⟨v, hv, rfl⟩ := List.mem_map.1 hx
        exact .blanks (blanks_newLine _) (ih v hv (level + 1))
      have hvalues : (items.map spelled).map Prod.snd = items := by
        rw [List.map_map]
        exact List.map_id items
      have htexts : (items.map spelled).map Prod.fst
          = items.map fun v => newLine (level + 1) ++ prettyChars (level + 1) v := by
        rw [List.map_map]
        rfl
      cases items with
      | nil =>
          rw [prettyChars]
          exact .array blanks_nil hitems
      | cons v items =>
          have harray := Spells.array (blanks_newLine level) hitems
          rw [hvalues, htexts, ← prettyItems_eq] at harray
          rw [prettyChars, List.append_assoc]
          · exact harray
          · simp
  | @object depth members h ih =>
      let spelled (m : String × Json) : Member :=
        ⟨newLine (level + 1), m.1, ' ' :: prettyChars (level + 1) m.2, m.2⟩
      have hbefore : ∀ x ∈ members.map spelled, Blanks x.before := by
        intro x hx
        obtain ⟨m, -, rfl⟩ := List.mem_map.1 hx
        exact blanks_newLine _
      have hmembers : ∀ x ∈ members.map spelled, Spells depth x.text x.value := by
        intro x hx
        obtain ⟨m, hm, rfl⟩ := List.mem_map.1 hx
        exact .blanks (by simp [Blanks, isBlank] : Blanks [' ']) (ih m hm (level + 1))
      have hvalues : (members.map spelled).map (fun m => (m.name, m.value)) = members := by
        rw [List.map_map]
        exact List.map_id members
      have htexts : (members.map spelled).map Member.spelling = members.map fun m =>
          newLine (level + 1) ++ (quoted m.1 ++ ':' :: ' ' :: prettyChars (level + 1) m.2) := by
        rw [List.map_map]
        rfl
      cases members with
      | nil =>
          rw [prettyChars]
          exact .object blanks_nil hbefore hmembers
      | cons m members =>
          have hobject := Spells.object (blanks_newLine level) hbefore hmembers
          rw [hvalues, htexts, ← prettyMembers_eq] at hobject
          rw [prettyChars, List.append_assoc]
          · exact hobject
          · simp

/-- **What is written reads back.** -/
theorem parse?_pretty {v : Json} (h : Plain maxDepth v) : parse? (pretty v) = some v :=
  parse?_of_spells (spells_pretty h 0)

end Rebuild.Json
