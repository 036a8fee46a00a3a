import Rebuild.Proofs.Json.Numerals

/-!
# What is read of a text that was written

Not every value comes back from its text: a fraction is rounded when it is read, what is no number is
written as `null`, and a value that is nested too deep is refused.  But where a text that was written is
read at all, it is read to its end, and as `Json.reread` of the value: nothing is taken for a part of
anything else.

* **Inversion.**  What a reading that succeeded has read: what comes after one of several
  (`Continues`), and what is between brackets (`Enclosed`).
* **Endpoint.**  `whole`, by induction on the value, and `reread_of_parse?` for a whole text.
-/

namespace Rebuild.Json

/-! ## Induction -/

/-- What holds of a list or an object as soon as it holds of all that it holds, holds of every value. -/
@[elab_as_elim]
theorem nested_induction {motive : Json → Prop}
    (scalar : ∀ v, (∀ items, v ≠ .array items) → (∀ members, v ≠ .object members) → motive v)
    (array : ∀ items, (∀ v ∈ items, motive v) → motive (.array items))
    (object : ∀ members : List (String × Json), (∀ m ∈ members, motive m.2) →
      motive (.object members)) (v : Json) : motive v :=
  match v with
  | .array items => array items fun v _ => nested_induction scalar array object v
  | .object members => object members fun m _ => nested_induction scalar array object m.2
  | .null => scalar _ (by simp) (by simp)
  | .bool _ => scalar _ (by simp) (by simp)
  | .number _ => scalar _ (by simp) (by simp)
  | .string _ => scalar _ (by simp) (by simp)
termination_by sizeOf v
decreasing_by
  · rename_i hv
    have hlt := List.sizeOf_lt_of_mem hv
    simp only [Json.array.sizeOf_spec]
    omega
  · rename_i hm
    have hlt := List.sizeOf_lt_of_mem hm
    obtain ⟨name, v⟩ := m
    simp only [Json.object.sizeOf_spec, Prod.mk.sizeOf_spec] at hlt ⊢
    omega

mutual

/-- What is read of the text of a value. -/
def reread : Json → Json
  | .array items => .array (rereadItems items)
  | .object members => .object (rereadMembers members)
  | value => ((readScalar (scalarText value)).map Prod.fst).getD .null

/-- `reread` for each item. -/
def rereadItems : List Json → List Json
  | [] => []
  | item :: items => item.reread :: rereadItems items

/-- `reread` for each member. -/
def rereadMembers : List (String × Json) → List (String × Json)
  | [] => []
  | (name, value) :: members => (name, value.reread) :: rereadMembers members

end

lemma rereadItems_eq (items : List Json) : rereadItems items = items.map reread := by
  induction items with
  | nil => rfl
  | cons item items ih => rw [rereadItems, ih, List.map_cons]

lemma rereadMembers_eq (members : List (String × Json)) :
    rereadMembers members = members.map fun m => (m.1, m.2.reread) := by
  induction members with
  | nil => rfl
  | cons m members ih => rw [rereadMembers, ih, List.map_cons]

lemma reread_array (items : List Json) : (Json.array items).reread = .array (items.map reread) := by
  rw [reread, rereadItems_eq]

lemma reread_object (members : List (String × Json)) :
    (Json.object members).reread = .object (members.map fun m => (m.1, m.2.reread)) := by
  rw [reread, rereadMembers_eq]

/-- A word, a string or an integer of 64 bits is read as it is. -/
lemma reread_of_scalar {v : Json} (h : Scalar v) : v.reread = v := by
  have hread : readScalar (scalarText v ++ []) = some (v, []) :=
    readScalar_scalarText h (by simp [Ends])
  rw [List.append_nil] at hread
  cases v with
  | array items => exact absurd h id
  | object members => exact absurd h id
  | null | bool | number | string => simp only [reread, hread, Option.map_some, Option.getD_some]

/-! ## Texts without inner values -/

/-- The first token is one that ends a value, if there is a token. -/
def Follows (rest : List Char) : Prop := ∀ c ∈ (skip rest).head?, c = ',' ∨ c = ']' ∨ c = '}'

lemma Follows.parted {rest : List Char} (h : Follows rest) : Parted rest := by
  intro c hc
  cases rest with
  | nil => cases hc
  | cons d rest =>
      cases hc
      cases hblank : isBlank c with
      | false =>
          rcases h c (by rw [skip_cons hblank]; rfl) with rfl | rfl | rfl <;> decide
      | true =>
          simp only [isBlank, Bool.or_eq_true, beq_iff_eq] at hblank
          rcases hblank with ((rfl | rfl) | rfl) | rfl <;> decide

lemma Follows.ends {rest : List Char} (h : Follows rest) : Ends rest := fun c hc =>
  have hc := h.parted c hc
  ⟨hc.1, hc.2.1, hc.2.2.1, hc.2.2.2.1⟩

lemma IsNumeric.opens {c : Char} (h : IsNumeric c) : Opens c ∧ c ≠ '[' ∧ c ≠ '{' := by
  rcases h with hc | rfl | rfl | rfl
  · refine ⟨opens_isDigit hc, ?_, ?_⟩ <;> rintro rfl <;> cases hc
  all_goals decide

/-- The text of any value that holds no other one begins with a token of its own. -/
lemma exists_token {v : Json} (harray : ∀ items, v ≠ .array items)
    (hobject : ∀ members, v ≠ .object members) :
    ∃ c cs, scalarText v = c :: cs ∧ Opens c ∧ c ≠ '[' ∧ c ≠ '{' := by
  cases v with
  | array items => exact absurd rfl (harray items)
  | object members => exact absurd rfl (hobject members)
  | null => exact exists_scalarText (v := .null) trivial
  | bool b => exact exists_scalarText (v := .bool b) trivial
  | string s => exact exists_scalarText (v := .string s) trivial
  | number n =>
      show ∃ c cs, (numberText n).toList = c :: cs ∧ _
      rcases numberText_cases n with hnull | ⟨hnumeric, hne⟩
      · rw [hnull]
        exact ⟨'n', _, rfl, by decide⟩
      · cases htext : (numberText n).toList with
        | nil => exact absurd htext hne
        | cons c cs => exact ⟨c, cs, rfl, (hnumeric c (htext ▸ List.mem_cons_self)).opens⟩

/-- What begins with a character of numbers is read as a number. -/
lemma readScalar_of_isNumeric {c : Char} (h : IsNumeric c) (cs : List Char) :
    readScalar (c :: cs) = (readNumber (c :: cs)).map fun r => (.number r.1, r.2) := by
  rw [readScalar.eq_def]
  split
  all_goals rename_i heq
  · cases heq
    simp [IsNumeric] at h
  · cases heq
    simp [IsNumeric] at h
  · cases heq
    simp [IsNumeric] at h
  · cases heq
    simp [IsNumeric] at h
  · rfl

/-- A text of such characters is read to its end, if something that ends a value is left. -/
lemma readScalar_numeric {text rest rest' : List Char} {w : Json} (hall : ∀ c ∈ text, IsNumeric c)
    (hne : text ≠ []) (hrest : Follows rest) (hread : readScalar (text ++ rest) = some (w, rest'))
    (hrest' : Follows rest') : readScalar text = some (w, []) ∧ rest' = rest := by
  cases text with
  | nil => exact absurd rfl hne
  | cons c cs =>
      have hc : IsNumeric c := hall c List.mem_cons_self
      rw [List.cons_append, readScalar_of_isNumeric hc, ← List.cons_append,
        local_readNumber.append _ rest hrest.parted] at hread
      cases hnumber : readNumber (c :: cs) with
      | none =>
          rw [hnumber] at hread
          cases hread
      | some r =>
          obtain ⟨n, left⟩ := r
          rw [hnumber] at hread
          cases hread
          have hsuffix : left <:+ c :: cs := local_readNumber.suffix _ _ hnumber
          cases left with
          | nil =>
              rw [readScalar_of_isNumeric hc, hnumber]
              exact ⟨rfl, rfl⟩
          | cons d more =>
              have hopens : Opens d := (hall d (hsuffix.subset List.mem_cons_self)).opens.1
              have hskip : skip (d :: more ++ rest) = d :: (more ++ rest) := skip_cons hopens.1 _
              have hd : d = ',' ∨ d = ']' ∨ d = '}' := hrest' d (congrArg List.head? hskip)
              rcases hd with rfl | rfl | rfl
              · exact absurd rfl hopens.2.1
              · exact absurd rfl hopens.2.2.1
              · exact absurd rfl hopens.2.2.2

/-- **A text without inner values is read to its end**, if something that ends a value is left. -/
lemma readScalar_text {v w : Json} {rest rest' : List Char} (harray : ∀ items, v ≠ .array items)
    (hobject : ∀ members, v ≠ .object members) (hrest : Follows rest)
    (hread : readScalar (scalarText v ++ rest) = some (w, rest')) (hrest' : Follows rest') :
    w = v.reread ∧ rest' = rest := by
  have hscalar : Scalar v → w = v.reread ∧ rest' = rest := by
    intro hv
    rw [readScalar_scalarText hv hrest.ends] at hread
    cases hread
    exact ⟨(reread_of_scalar hv).symm, rfl⟩
  cases v with
  | array items => exact absurd rfl (harray items)
  | object members => exact absurd rfl (hobject members)
  | null => exact hscalar trivial
  | bool b => exact hscalar trivial
  | string s => exact hscalar trivial
  | number n =>
      rcases numberText_cases n with hnull | ⟨hnumeric, hne⟩
      · simp only [scalarText, hnull] at hread
        cases hread
        simp only [reread, scalarText, hnull]
        exact ⟨rfl, rfl⟩
      · obtain ⟨hnumber, rfl⟩ := readScalar_numeric hnumeric hne hrest hread hrest'
        simp only [reread, scalarText, hnumber, Option.map_some, Option.getD_some, and_self]

/-! ## Values -/

variable {cs front after rest rest' : List Char} {n level : Nat} {v w : Json}

lemma prettyChars_scalar (harray : ∀ items, v ≠ .array items)
    (hobject : ∀ members, v ≠ .object members) : prettyChars level v = scalarText v := by
  cases v with
  | array items => exact absurd rfl (harray items)
  | object members => exact absurd rfl (hobject members)
  | null | bool | number | string => simp [prettyChars]

/-- A list without items is written like any other, but for the line of its bracket. -/
lemma exists_prettyChars_array (level : Nat) (items : List Json) :
    ∃ closing, Blanks closing ∧ prettyChars level (.array items)
      = '[' :: (prettyItems (level + 1) items ++ (closing ++ [']'])) := by
  cases items with
  | nil => exact ⟨[], blanks_nil, by simp [prettyChars, prettyItems]⟩
  | cons item items => exact ⟨newLine level, blanks_newLine level, by simp [prettyChars]⟩

lemma exists_prettyChars_object (level : Nat) (members : List (String × Json)) :
    ∃ closing, Blanks closing ∧ prettyChars level (.object members)
      = '{' :: (prettyMembers (level + 1) members ++ (closing ++ ['}'])) := by
  cases members with
  | nil => exact ⟨[], blanks_nil, by simp [prettyChars, prettyMembers]⟩
  | cons m members => exact ⟨newLine level, blanks_newLine level, by simp [prettyChars]⟩

/-- Every text of a value begins with a token of its own. -/
lemma opens_prettyChars (v : Json) (level : Nat) (rest : List Char) :
    ∃ c cs, skip (prettyChars level v ++ rest) = c :: cs ∧ Opens c := by
  cases v using nested_induction with
  | scalar v harray hobject =>
      obtain ⟨c, cs, htext, hopens, -⟩ := exists_token harray hobject
      rw [prettyChars_scalar harray hobject, htext]
      exact ⟨c, cs ++ rest, skip_cons hopens.1 _, hopens⟩
  | array items _ =>
      obtain ⟨closing, -, htext⟩ := exists_prettyChars_array level items
      rw [htext]
      exact ⟨'[', _, skip_cons (by decide) _, by decide⟩
  | object members _ =>
      obtain ⟨closing, -, htext⟩ := exists_prettyChars_object level members
      rw [htext]
      exact ⟨'{', _, skip_cons (by decide) _, by decide⟩

/-! ### What a successful reading has read -/

/-- What was read, without the account that the rest is shorter. -/
lemma read_of_some {α : Type} {p : α → Prop} {read : Option (Subtype p)} {x : α} {hx : p x}
    (h : read = some ⟨x, hx⟩) : read.map Subtype.val = some x := by
  rw [h]
  rfl

section

variable {α : Type} {close : Char} {tail : List Char} {more : List α}

/-- After one of several: the closing character, and there are no more, or a comma, and more are
read. -/
def Continues (close : Char) (read : List Char → Option (List α × List Char)) (cs rest : List Char)
    (more : List α) : Prop :=
  ((readSeparator close cs).map Subtype.val = some (false, rest) ∧ more = [])
    ∨ ∃ next, (readSeparator close cs).map Subtype.val = some (true, next)
      ∧ read next = some (more, rest)

variable {read : List Char → Option (List α × List Char)}

/-- A separator was read, so that a token comes first that ends a value. -/
lemma Continues.follows (h : Continues close read cs rest more) (hclose : close = ']' ∨ close = '}') :
    Follows cs := by
  have hread : readSeparator close cs ≠ none := by
    intro hnone
    rcases h with ⟨h, -⟩ | ⟨next, h, -⟩ <;> rw [hnone] at h <;> cases h
  intro c hc
  obtain ⟨ds, hskip⟩ := List.head?_eq_some_iff.1 hc
  by_contra hother
  obtain ⟨hcomma, hend⟩ := not_or.1 hother
  exact hread (readSeparator_eq_none hcomma (fun hc => hend (hc ▸ hclose)) hskip)

lemma Continues.closed (h : Continues close read cs rest more) (hclose : close ≠ ',')
    (hskip : skip cs = close :: tail) : more = [] ∧ rest = tail := by
  have hread := readSeparator_close hclose hskip
  rcases h with ⟨hseparator, rfl⟩ | ⟨next, hseparator, -⟩
  · cases hseparator.symm.trans hread
    exact ⟨rfl, rfl⟩
  · cases hseparator.symm.trans hread

lemma Continues.comma (h : Continues close read cs rest more) (hskip : skip cs = ',' :: tail) :
    read tail = some (more, rest) := by
  have hread : (readSeparator close cs).map Subtype.val = some (true, tail) :=
    readSeparator_comma hskip
  rcases h with ⟨hseparator, -⟩ | ⟨next, hseparator, hnext⟩
  · cases hseparator.symm.trans hread
  · cases hseparator.symm.trans hread
    exact hnext

/-- After the opening character: the closing one, and there is nothing, or what is read up to it. -/
def Enclosed (close : Char) (read : Nat → List Char → Option (List α × List Char))
    (cs rest : List Char) (inner : List α) : Prop :=
  ((readSeparator close cs).map Subtype.val = some (false, rest) ∧ inner = [])
    ∨ (readSeparator close cs = none ∧ ∃ m, read m cs = some (inner, rest))

variable {read : Nat → List Char → Option (List α × List Char)} {inner : List α}

lemma Enclosed.empty (h : Enclosed close read cs rest inner) (hclose : close ≠ ',')
    (hskip : skip cs = close :: tail) : inner = [] ∧ rest = tail := by
  have hread := readSeparator_close hclose hskip
  rcases h with ⟨hseparator, rfl⟩ | ⟨hnone, -⟩
  · cases hseparator.symm.trans hread
    exact ⟨rfl, rfl⟩
  · rw [hnone] at hread
    cases hread

lemma Enclosed.exists_read (h : Enclosed close read cs rest inner) {c : Char}
    (hskip : skip cs = c :: tail) (hcomma : c ≠ ',') (hclose : c ≠ close) :
    ∃ m, read m cs = some (inner, rest) := by
  rcases h with ⟨hseparator, -⟩ | ⟨-, hread⟩
  · rw [readSeparator_eq_none hcomma hclose hskip] at hseparator
    cases hseparator
  · exact hread

end

lemma exists_of_readItems {items : List Json}
    (h : (readItems n cs).map Subtype.val = some (items, rest)) :
    ∃ v after more, (readValue n cs).map Subtype.val = some (v, after)
      ∧ Continues ']' (fun cs => (readItems n cs).map Subtype.val) after rest more
      ∧ items = v :: more := by
  rw [readItems] at h
  split at h
  · cases h
  rename_i v after hlt hvalue
  have hread : (readValue n cs).map Subtype.val = some (v, after) := read_of_some hvalue
  split at h
  · cases h
  · rename_i hseparator
    cases h
    exact ⟨v, after, [], hread, Or.inl ⟨read_of_some hseparator, rfl⟩, rfl⟩
  · rename_i next hmore hseparator
    split at h
    · cases h
    · rename_i more hitems
      cases h
      exact ⟨v, after, _, hread, Or.inr ⟨next, read_of_some hseparator, read_of_some hitems⟩, rfl⟩

lemma exists_of_readMembers {members : List (String × Json)}
    (h : (readMembers n cs).map Subtype.val = some (members, rest)) :
    ∃ name front v after more, (readName cs).map Subtype.val = some (name, front)
      ∧ (readValue n front).map Subtype.val = some (v, after)
      ∧ Continues '}' (fun cs => (readMembers n cs).map Subtype.val) after rest more
      ∧ members = (name, v) :: more := by
  rw [readMembers] at h
  split at h
  · cases h
  rename_i name front hfront hname
  split at h
  · cases h
  rename_i v after hafter hvalue
  have hread : (readName cs).map Subtype.val = some (name, front) := read_of_some hname
  have hread' : (readValue n front).map Subtype.val = some (v, after) := read_of_some hvalue
  split at h
  · cases h
  · rename_i hseparator
    cases h
    exact ⟨name, front, v, after, [], hread, hread', Or.inl ⟨read_of_some hseparator, rfl⟩, rfl⟩
  · rename_i next hmore hseparator
    split at h
    · cases h
    · rename_i more hmembers
      cases h
      exact ⟨name, front, v, after, _, hread, hread',
        Or.inr ⟨next, read_of_some hseparator, read_of_some hmembers⟩, rfl⟩

lemma readScalar_of_readValue (harray : ∀ r, skip cs ≠ '[' :: r) (hobject : ∀ r, skip cs ≠ '{' :: r)
    (h : (readValue n cs).map Subtype.val = some (v, rest)) :
    readScalar (skip cs) = some (v, rest) := by
  rw [readValue] at h
  split at h
  · rename_i heq
    exact absurd heq (harray _)
  · rename_i heq
    exact absurd heq (hobject _)
  · cases hread : readScalar (skip cs) with
    | none =>
        simp only [hread, shorter?] at h
        cases h
    | some r =>
        simp only [hread, shorter?] at h
        split at h
        · cases h
          rfl
        · cases h

lemma exists_of_readValue_array (hskip : skip cs = '[' :: front)
    (h : (readValue n cs).map Subtype.val = some (v, rest)) :
    ∃ items, Enclosed ']' (fun m cs => (readItems m cs).map Subtype.val) front rest items
      ∧ v = .array items := by
  rw [readValue] at h
  split at h
  · rename_i front' heq
    cases heq.symm.trans hskip
    split at h
    · cases h
    · split at h
      · rename_i hseparator
        cases h
        exact ⟨[], Or.inl ⟨read_of_some hseparator, rfl⟩, rfl⟩
      · cases h
      · rename_i hseparator
        split at h
        · rename_i items after hafter hitems
          cases h
          exact ⟨items, Or.inr ⟨hseparator, _, read_of_some hitems⟩, rfl⟩
        · cases h
  · rename_i heq
    cases heq.symm.trans hskip
  · rename_i hne _
    exact absurd hskip (hne _)

lemma exists_of_readValue_object (hskip : skip cs = '{' :: front)
    (h : (readValue n cs).map Subtype.val = some (v, rest)) :
    ∃ members, Enclosed '}' (fun m cs => (readMembers m cs).map Subtype.val) front rest members
      ∧ v = .object members := by
  rw [readValue] at h
  split at h
  · rename_i heq
    cases heq.symm.trans hskip
  · rename_i front' heq
    cases heq.symm.trans hskip
    split at h
    · cases h
    · split at h
      · rename_i hseparator
        cases h
        exact ⟨[], Or.inl ⟨read_of_some hseparator, rfl⟩, rfl⟩
      · cases h
      · rename_i hseparator
        split at h
        · rename_i members after hafter hmembers
          cases h
          exact ⟨members, Or.inr ⟨hseparator, _, read_of_some hmembers⟩, rfl⟩
        · cases h
  · rename_i hne
    exact absurd hskip (hne _)

/-! ### Values read to their ends -/

/-- Whatever is read of the text of the value, nothing of the text is left. -/
def Whole (v : Json) : Prop :=
  ∀ {n level : Nat} {cs rest rest' : List Char} {w : Json},
    skip cs = skip (prettyChars level v ++ rest) → Follows rest →
    (readValue n cs).map Subtype.val = some (w, rest') → Follows rest' → w = v.reread ∧ rest' = rest

lemma follows_closing {closing : List Char} {c : Char} (hclosing : Blanks closing)
    (hc : c = ',' ∨ c = ']' ∨ c = '}') (rest : List Char) : Follows (closing ++ c :: rest) := by
  have hblank : isBlank c = false := by rcases hc with rfl | rfl | rfl <;> decide
  intro d hd
  rw [skip_closing hclosing hblank] at hd
  cases hd
  exact hc

/-- Items that are whole are read one by one, up to the bracket. -/
lemma readItems_pretty {closing : List Char} (hclosing : Blanks closing) {items ws : List Json}
    (hne : items ≠ []) (h : ∀ v ∈ items, v.Whole)
    (hread : (readItems n (prettyItems level items ++ (closing ++ ']' :: rest))).map Subtype.val
      = some (ws, rest')) : ws = items.map reread ∧ rest' = rest := by
  induction items generalizing ws rest' with
  | nil => exact absurd rfl hne
  | cons item items ih =>
      obtain ⟨w, after, more, hvalue, hmore, rfl⟩ := exists_of_readItems hread
      have hfollows : Follows after := hmore.follows (Or.inl rfl)
      cases items with
      | nil =>
          have htail : Follows (closing ++ ']' :: rest) :=
            follows_closing hclosing (Or.inr (Or.inl rfl)) rest
          have hskip : skip (prettyItems level [item] ++ (closing ++ ']' :: rest))
              = skip (prettyChars level item ++ (closing ++ ']' :: rest)) := by
            rw [prettyItems, List.append_assoc, skip_append (blanks_newLine level)]
          obtain ⟨rfl, rfl⟩ := h item List.mem_cons_self hskip htail hvalue hfollows
          obtain ⟨rfl, rfl⟩ := hmore.closed (by decide) (skip_closing hclosing (by decide) rest)
          exact ⟨rfl, rfl⟩
      | cons next items =>
          let tail := prettyItems level (next :: items) ++ (closing ++ ']' :: rest)
          have htail : Follows (',' :: tail) := follows_closing blanks_nil (Or.inl rfl) tail
          have hskip : skip (prettyItems level (item :: next :: items) ++ (closing ++ ']' :: rest))
              = skip (prettyChars level item ++ ',' :: tail) := by
            rw [prettyItems, List.append_assoc, List.append_assoc, skip_append (blanks_newLine level)]
            rfl
          obtain ⟨rfl, rfl⟩ := h item List.mem_cons_self hskip htail hvalue hfollows
          have hitems := hmore.comma (skip_cons (by decide) tail)
          obtain ⟨rfl, rfl⟩ := ih (List.cons_ne_nil _ _)
            (fun v hv => h v (List.mem_cons_of_mem _ hv)) hitems
          exact ⟨rfl, rfl⟩

/-- The name of a member is read before its value. -/
lemma readName_pretty (name : String) (v : Json) (level : Nat) (tail : List Char) :
    ∃ front, (readName (newLine level ++ quoted name ++ ':' :: ' ' :: prettyChars level v ++ tail)).map
        Subtype.val = some (name, front) ∧ skip front = skip (prettyChars level v ++ tail) := by
  have hquote : isBlank '"' = false := by decide
  have hspace : Blanks [' '] := by simp [Blanks, isBlank]
  have hname : skip (newLine level ++ quoted name ++ ':' :: ' ' :: prettyChars level v ++ tail)
      = quoted name ++ ':' :: ' ' :: (prettyChars level v ++ tail) := by
    rw [List.append_assoc, List.append_assoc, skip_append (blanks_newLine level)]
    simp [quoted, skip_cons hquote]
  refine ⟨_, readName_eq hname (skip_cons (by decide) _), ?_⟩
  exact skip_append hspace _

/-- Members whose values are whole are read one by one, up to the brace. -/
lemma readMembers_pretty {closing : List Char} (hclosing : Blanks closing)
    {members ws : List (String × Json)} (hne : members ≠ []) (h : ∀ m ∈ members, m.2.Whole)
    (hread : (readMembers n (prettyMembers level members ++ (closing ++ '}' :: rest))).map Subtype.val
      = some (ws, rest')) : ws = members.map (fun m => (m.1, m.2.reread)) ∧ rest' = rest := by
  induction members generalizing ws rest' with
  | nil => exact absurd rfl hne
  | cons m members ih =>
      obtain ⟨key, value⟩ := m
      obtain ⟨name, front, w, after, more, hname, hvalue, hmore, rfl⟩ := exists_of_readMembers hread
      have hfollows : Follows after := hmore.follows (Or.inr rfl)
      have hwhole : value.Whole := h (key, value) List.mem_cons_self
      cases members with
      | nil =>
          have htail : Follows (closing ++ '}' :: rest) :=
            follows_closing hclosing (Or.inr (Or.inr rfl)) rest
          obtain ⟨front', hname', hskip⟩ :=
            readName_pretty key value level (closing ++ '}' :: rest)
          rw [prettyMembers] at hname
          cases hname.symm.trans hname'
          obtain ⟨rfl, rfl⟩ := hwhole hskip htail hvalue hfollows
          obtain ⟨rfl, rfl⟩ := hmore.closed (by decide) (skip_closing hclosing (by decide) rest)
          exact ⟨rfl, rfl⟩
      | cons next members =>
          let tail := prettyMembers level (next :: members) ++ (closing ++ '}' :: rest)
          have htail : Follows (',' :: tail) := follows_closing blanks_nil (Or.inl rfl) tail
          have htext : prettyMembers level ((key, value) :: next :: members)
                ++ (closing ++ '}' :: rest)
              = newLine level ++ quoted key ++ ':' :: ' ' :: prettyChars level value ++ ',' :: tail := by
            simp [prettyMembers, tail]
          obtain ⟨front', hname', hskip⟩ := readName_pretty key value level (',' :: tail)
          rw [htext] at hname
          cases hname.symm.trans hname'
          obtain ⟨rfl, rfl⟩ := hwhole hskip htail hvalue hfollows
          have hmembers := hmore.comma (skip_cons (by decide) tail)
          obtain ⟨rfl, rfl⟩ := ih (List.cons_ne_nil _ _)
            (fun m hm => h m (List.mem_cons_of_mem _ hm)) hmembers
          exact ⟨rfl, rfl⟩

lemma opens_prettyItems (level : Nat) (item : Json) (items : List Json) (rest : List Char) :
    ∃ c cs, skip (prettyItems level (item :: items) ++ rest) = c :: cs ∧ Opens c := by
  cases items with
  | nil =>
      rw [prettyItems, List.append_assoc, skip_append (blanks_newLine level)]
      exact opens_prettyChars item level rest
  | cons next items =>
      rw [prettyItems, List.append_assoc, List.append_assoc, skip_append (blanks_newLine level)]
      exact opens_prettyChars item level _

lemma opens_prettyMembers (level : Nat) (m : String × Json) (members : List (String × Json))
    (rest : List Char) :
    ∃ c cs, skip (prettyMembers level (m :: members) ++ rest) = c :: cs ∧ Opens c := by
  have hquote : ∀ (name : String) (more : List Char),
      ∃ c cs, skip (newLine level ++ quoted name ++ more) = c :: cs ∧ Opens c := by
    intro name more
    rw [List.append_assoc, skip_append (blanks_newLine level)]
    exact ⟨'"', _, skip_cons (by decide) _, by decide⟩
  obtain ⟨name, v⟩ := m
  cases members with
  | nil =>
      rw [prettyMembers, List.append_assoc]
      exact hquote name _
  | cons next members =>
      rw [prettyMembers, List.append_assoc]
      exact hquote name _

/-- **Every value is read to its end.** -/
theorem whole (v : Json) : v.Whole := by
  induction v using nested_induction with
  | scalar v harray hobject =>
      intro n level cs rest rest' w hskip hrest hread hrest'
      obtain ⟨c, more, htext, hopens, hbracket, hbrace⟩ := exists_token harray hobject
      have hcs : skip cs = scalarText v ++ rest := by
        rw [hskip, prettyChars_scalar harray hobject, htext]
        exact skip_cons hopens.1 _
      have hfirst : ∀ {d : Char} {ds : List Char}, skip cs = d :: ds → c = d := by
        intro d ds heq
        rw [hcs, htext] at heq
        exact (List.cons.inj heq).1
      have hscalar := readScalar_of_readValue (fun _ heq => hbracket (hfirst heq))
        (fun _ heq => hbrace (hfirst heq)) hread
      rw [hcs] at hscalar
      exact readScalar_text harray hobject hrest hscalar hrest'
  | array items ih =>
      intro n level cs rest rest' w hskip hrest hread hrest'
      obtain ⟨closing, hclosing, htext⟩ := exists_prettyChars_array level items
      have hcs : skip cs = '[' :: (prettyItems (level + 1) items ++ (closing ++ ']' :: rest)) := by
        rw [hskip, htext, List.cons_append, skip_cons (by decide)]
        simp
      obtain ⟨ws, henclosed, rfl⟩ := exists_of_readValue_array hcs hread
      rw [reread_array]
      cases items with
      | nil =>
          obtain ⟨rfl, rfl⟩ := henclosed.empty (by decide) (skip_closing hclosing (by decide) rest)
          exact ⟨rfl, rfl⟩
      | cons item items =>
          obtain ⟨c, more, hfirst, hopens⟩ :=
            opens_prettyItems (level + 1) item items (closing ++ ']' :: rest)
          obtain ⟨m, hitems⟩ := henclosed.exists_read hfirst hopens.2.1 hopens.2.2.1
          obtain ⟨rfl, rfl⟩ := readItems_pretty hclosing (List.cons_ne_nil _ _) ih hitems
          exact ⟨rfl, rfl⟩
  | object members ih =>
      intro n level cs rest rest' w hskip hrest hread hrest'
      obtain ⟨closing, hclosing, htext⟩ := exists_prettyChars_object level members
      have hcs : skip cs = '{' :: (prettyMembers (level + 1) members ++ (closing ++ '}' :: rest)) := by
        rw [hskip, htext, List.cons_append, skip_cons (by decide)]
        simp
      obtain ⟨ws, henclosed, rfl⟩ := exists_of_readValue_object hcs hread
      rw [reread_object]
      cases members with
      | nil =>
          obtain ⟨rfl, rfl⟩ := henclosed.empty (by decide) (skip_closing hclosing (by decide) rest)
          exact ⟨rfl, rfl⟩
      | cons member members =>
          obtain ⟨c, more, hfirst, hopens⟩ :=
            opens_prettyMembers (level + 1) member members (closing ++ '}' :: rest)
          obtain ⟨m, hmembers⟩ := henclosed.exists_read hfirst hopens.2.1 hopens.2.2.2
          obtain ⟨rfl, rfl⟩ := readMembers_pretty hclosing (List.cons_ne_nil _ _) ih hmembers
          exact ⟨rfl, rfl⟩

/-- **What was written is reread, if it is read.** -/
theorem reread_of_parse? {v w : Json} (h : parse? (pretty v) = some w) : w = v.reread := by
  have hfollows : ∀ rest, skip rest = [] → Follows rest := by
    intro rest hrest c hc
    rw [hrest] at hc
    cases hc
  have hcs : skip (pretty v).toList = skip (prettyChars 0 v ++ []) := by
    rw [pretty, String.toList_ofList, List.append_nil]
  rw [parse?] at h
  split at h
  · rename_i value rest hlt hread
    split_ifs at h with hrest
    cases h
    exact (whole v hcs (hfollows [] rfl) (read_of_some hread) (hfollows rest hrest)).1
  · cases h

end Rebuild.Json
