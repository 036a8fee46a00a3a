import Mathlib.Tactic.Common
import Rebuild.Json.Basic
import Rebuild.Json.Decode

/-!
# Records read back

What a record reads from an object that was written member by member: the first member of a name
answers for it (`required?_cons` and the like), and one that was left out for nothing reads as nothing
(`optional?_optionalMember`).
-/

namespace Rebuild.Json

/-! ## Values -/

lemma below?_nat {bound n : Nat} (h : n < bound) : below? bound (nat n) = some n := by
  have hrange : (0 : Int) ≤ n ∧ (n : Int) < bound := ⟨by omega, by exact_mod_cast h⟩
  simp only [below?, nat]
  rw [if_pos hrange, Int.toNat_natCast]

/-- A list reads back as soon as each of its items does. -/
lemma list?_map {α : Type} {read : Json → Option α} {write : α → Json}
    (h : ∀ a, read (write a) = some a) (items : List α) :
    list? read (.array (items.map write)) = some items := by
  rw [list?]
  induction items with
  | nil => rfl
  | cons a items ih =>
      rw [List.map_cons, List.mapM_cons, h, ih]
      rfl

lemma list?_strings (items : List String) : list? string? (strings items) = some items := by
  have hread : ∀ s, string? (.string s) = some s := fun _ => rfl
  exact list?_map hread items

/-- A text or nothing reads back. -/
lemma nullable?_string (text : Option String) :
    nullable? string? (.ofOption (text.map .string)) = some text := by
  cases text <;> rfl

/-! ## Records -/

/-- An object in which no name occurs twice is a record of any names. -/
lemma recordWith?_object {spare : Nat} {known : List String} {members : List (String × Json)}
    (h : (members.map Prod.fst).Nodup) :
    recordWith? spare known (.object members) = some members := by
  refine if_pos (List.all_eq_true.2 fun name _ => decide_eq_true ?_)
  induction members with
  | nil => exact Nat.zero_le _
  | cons m members ih =>
      obtain ⟨hnot, hrest⟩ := List.nodup_cons.1 h
      by_cases hname : m.1 = name
      · have hnone : members.filter (fun m => m.1 == name) = [] := by
          refine List.filter_eq_nil_iff.2 fun m' hm' heq => hnot ?_
          rw [hname, ← eq_of_beq heq]
          exact List.mem_map.2 ⟨m', hm', rfl⟩
        simp [hname, hnone]
      · simpa [hname] using ih hrest

lemma record?_object {known : List String} {members : List (String × Json)}
    (h : (members.map Prod.fst).Nodup) : record? known (.object members) = some members :=
  recordWith?_object h

namespace Record

variable {α : Type} {r : Record} {name n : String} {v : Json} {read : Json → Option α}

lemma lookup_cons : List.lookup name ((n, v) :: r) = if n = name then some v else r.lookup name := by
  split_ifs with h
  · rw [h, List.lookup_cons_self]
  · rw [List.lookup_cons, beq_eq_false_iff_ne.2 (Ne.symm h)]

lemma required?_cons :
    required? ((n, v) :: r) name read = if n = name then read v else required? r name read := by
  rw [required?, lookup_cons]
  split_ifs <;> rfl

lemma optional?_cons : optional? ((n, v) :: r) name read
    = if n = name then nullable? read v else optional? r name read := by
  rw [optional?, lookup_cons]
  split_ifs <;> rfl

lemma withDefault?_cons {default : α} : withDefault? ((n, v) :: r) name read default
    = if n = name then read v else withDefault? r name read default := by
  rw [withDefault?, lookup_cons]
  split_ifs <;> rfl

/-! ### Members that may be left out -/

variable {w : Option Json}

lemma names_optionalMember : ((optionalMember n w).map Prod.fst).Sublist [n] := by
  cases w <;> simp [optionalMember]

lemma lookup_optionalMember (h : n ≠ name) :
    List.lookup name (optionalMember n w ++ r) = r.lookup name := by
  cases w with
  | none => rfl
  | some v => exact lookup_cons.trans (if_neg h)

lemma required?_optionalMember (h : n ≠ name) :
    required? (optionalMember n w ++ r) name read = required? r name read := by
  rw [required?, lookup_optionalMember h, required?]

lemma optional?_optionalMember (h : n ≠ name) :
    optional? (optionalMember n w ++ r) name read = optional? r name read := by
  rw [optional?, lookup_optionalMember h, optional?]

lemma withDefault?_optionalMember {default : α} (h : n ≠ name) :
    withDefault? (optionalMember n w ++ r) name read default = withDefault? r name read default := by
  rw [withDefault?, lookup_optionalMember h, withDefault?]

/-- A member that was left out for nothing reads as nothing. -/
lemma optional?_optionalMember_self {write : α → Json} (hmissing : r.lookup name = none)
    (hread : ∀ a, nullable? read (write a) = some (some a)) (a : Option α) :
    optional? (optionalMember name (a.map write) ++ r) name read = some a := by
  cases a with
  | none =>
      rw [Option.map_none, optionalMember, List.nil_append, optional?, hmissing]
  | some a =>
      rw [Option.map_some, optionalMember, List.singleton_append, optional?_cons, if_pos rfl, hread]

end Record
end Rebuild.Json
