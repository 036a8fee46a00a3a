import Mathlib.Tactic.Common
import Rebuild.Text.Basic

/-!
# Cutting text

What `Text.split` makes of a text that is put together from pieces, what the lines of a text are, and
what is left of a text without its start or its blanks.
-/

namespace Rebuild.Text

/-- No piece holds the character at which the text was cut. -/
lemma not_mem_of_mem_split {sep : Char} {cs piece : List Char} (h : piece ∈ split sep cs) :
    sep ∉ piece := by
  induction cs generalizing piece with
  | nil =>
      simp only [split, List.mem_singleton] at h
      simp [h]
  | cons c cs ih =>
      rw [split] at h
      by_cases hc : c = sep
      · rw [if_pos hc] at h
        rcases List.mem_cons.1 h with rfl | h
        · simp
        · exact ih h
      · rw [if_neg hc] at h
        cases hs : split sep cs with
        | nil => exact absurd hs (split_ne_nil sep cs)
        | cons first rest =>
            rw [hs] at h ih
            rcases List.mem_cons.1 h with rfl | h
            · have hfirst : sep ∉ first := ih List.mem_cons_self
              simp [hfirst, Ne.symm hc]
            · exact ih (List.mem_cons_of_mem _ h)

lemma split_cons_self (sep : Char) (cs : List Char) : split sep (sep :: cs) = [] :: split sep cs := by
  rw [split, if_pos rfl]

/-- What holds no separator lengthens the first piece. -/
lemma split_append {sep : Char} {before after piece : List Char} {pieces : List (List Char)}
    (h : sep ∉ before) (hafter : split sep after = piece :: pieces) :
    split sep (before ++ after) = (before ++ piece) :: pieces := by
  induction before with
  | nil => exact hafter
  | cons c before ih =>
      simp only [List.mem_cons, not_or] at h
      rw [List.cons_append, split, if_neg (Ne.symm h.1), ih h.2]
      rfl

lemma split_of_not_mem {sep : Char} {cs : List Char} (h : sep ∉ cs) : split sep cs = [cs] := by
  simpa using split_append h (rfl : split sep [] = [[]])

lemma split_append_cons {sep : Char} {piece rest : List Char} (h : sep ∉ piece) :
    split sep (piece ++ sep :: rest) = piece :: split sep rest := by
  simpa using split_append h (split_cons_self sep rest)

/-- The first piece ends before the first separator, or with the text. -/
lemma split_eq_cons_iff {sep : Char} {cs piece : List Char} {pieces : List (List Char)} :
    split sep cs = piece :: pieces ↔ sep ∉ piece ∧ ((cs = piece ∧ pieces = [])
      ∨ ∃ rest, cs = piece ++ sep :: rest ∧ split sep rest = pieces) := by
  constructor
  · intro h
    have hpiece : sep ∉ piece := not_mem_of_mem_split (h ▸ List.mem_cons_self)
    have hcs := join_split sep cs
    rw [h] at hcs
    refine ⟨hpiece, ?_⟩
    cases pieces with
    | nil => exact .inl ⟨hcs.symm, rfl⟩
    | cons next more =>
        rw [join, List.append_assoc, List.singleton_append] at hcs
        refine .inr ⟨join [sep] (next :: more), hcs.symm, ?_⟩
        rw [← hcs, split_append_cons hpiece] at h
        exact (List.cons_eq_cons.1 h).2
  · rintro ⟨hpiece, ⟨rfl, rfl⟩ | ⟨rest, rfl, rfl⟩⟩
    · exact split_of_not_mem hpiece
    · exact split_append_cons hpiece

lemma split_append_sep (sep : Char) (before after : List Char) :
    split sep (before ++ sep :: after) = split sep before ++ split sep after := by
  induction before with
  | nil => simp [split]
  | cons c cs ih =>
      rw [List.cons_append, split, split, ih]
      split_ifs with hc
      · rfl
      · cases hsplit : split sep cs with
        | nil => exact absurd hsplit (split_ne_nil sep cs)
        | cons piece pieces => rfl

/-- Pieces without the character come back when the text between them is cut at it. -/
lemma split_join {sep : Char} : ∀ {pieces : List (List Char)}, pieces ≠ [] →
    (∀ piece ∈ pieces, sep ∉ piece) → split sep (join [sep] pieces) = pieces
  | [], h, _ => absurd rfl h
  | [piece], _, hmem => by
      rw [join, split_of_not_mem (hmem piece List.mem_cons_self)]
  | piece :: next :: rest, _, hmem => by
      have hrest : ∀ p ∈ next :: rest, sep ∉ p := fun p hp => hmem p (List.mem_cons_of_mem _ hp)
      rw [join, List.append_assoc, List.singleton_append,
        split_append_cons (hmem piece List.mem_cons_self), split_join (by simp) hrest]

lemma intercalate_eq_join (sep : List Char) : ∀ pieces : List (List Char),
    sep.intercalate pieces = join sep pieces
  | [] => rfl
  | [piece] => by rw [List.intercalate_singleton, join]
  | piece :: next :: rest => by
      rw [List.intercalate_cons_cons, join, intercalate_eq_join sep (next :: rest)]

lemma mem_join {sep : List Char} {c : Char} : ∀ {pieces : List (List Char)},
    c ∈ join sep pieces → c ∈ sep ∨ ∃ piece ∈ pieces, c ∈ piece
  | [], h => absurd h List.not_mem_nil
  | [piece], h => .inr ⟨piece, List.mem_cons_self, h⟩
  | piece :: next :: rest, h => by
      rw [join, List.append_assoc, List.mem_append, List.mem_append] at h
      rcases h with h | h | h
      · exact .inr ⟨piece, List.mem_cons_self, h⟩
      · exact .inl h
      · rcases mem_join h with h | ⟨p, hp, hc⟩
        · exact .inl h
        · exact .inr ⟨p, List.mem_cons_of_mem _ hp, hc⟩

lemma mem_join_of_mem {sep : List Char} {c : Char} {piece : List Char} (hc : c ∈ piece) :
    ∀ {pieces : List (List Char)}, piece ∈ pieces → c ∈ join sep pieces
  | [], h => absurd h List.not_mem_nil
  | [_], h => List.mem_singleton.1 h ▸ hc
  | _ :: next :: rest, h => by
      rw [join, List.append_assoc, List.mem_append, List.mem_append]
      rcases List.mem_cons.1 h with rfl | h
      · exact .inl hc
      · exact .inr (.inr (mem_join_of_mem hc h))

lemma join_append (sep : List Char) {after : List (List Char)} (hafter : after ≠ []) :
    ∀ {before : List (List Char)}, before ≠ [] →
      join sep (before ++ after) = join sep before ++ (sep ++ join sep after)
  | [], h => absurd rfl h
  | [piece], _ => by
      obtain ⟨next, rest, rfl⟩ := List.exists_cons_of_ne_nil hafter
      rw [List.singleton_append, join, join, List.append_assoc]
  | piece :: next :: rest, _ => by
      have hrest := join_append sep hafter (List.cons_ne_nil next rest)
      rw [List.cons_append] at hrest
      rw [List.cons_append, List.cons_append, join, join, hrest]
      simp only [List.append_assoc]

lemma endsWith_iff (text : String) (pattern : String) :
    text.endsWith pattern = true ↔ pattern.toList <:+ text.toList := by
  rw [← String.endsWith_toSlice, String.Slice.endsWith_string_iff, String.copy_toSlice]

/-! ## Lines -/

/-- The lines of a text.  A line break ends a line, and the last line may go without one. -/
def lines (cs : List Char) : List (List Char) :=
  if (split '\n' cs).getLast? = some [] then (split '\n' cs).dropLast else split '\n' cs

@[simp] lemma lines_nil : lines [] = [] := rfl

/-- A line break at the end begins no line. -/
lemma lines_append_break (cs : List Char) : lines (cs ++ ['\n']) = split '\n' cs := by
  have hsplit : split '\n' (cs ++ ['\n']) = split '\n' cs ++ [[]] := split_append_sep '\n' cs []
  rw [lines, hsplit, List.getLast?_concat, if_pos rfl, List.dropLast_concat]

/-- Without a line break at the end, the last piece is the last line. -/
lemma lines_eq_split {cs : List Char} (hne : cs ≠ []) (hend : ¬['\n'] <:+ cs) :
    lines cs = split '\n' cs := by
  refine if_neg fun hlast => ?_
  obtain ⟨pieces, hpieces⟩ := List.getLast?_eq_some_iff.1 hlast
  have hjoin := join_split '\n' cs
  rw [hpieces] at hjoin
  by_cases hnil : pieces = []
  · rw [hnil] at hjoin
    exact hne hjoin.symm
  · rw [join_append ['\n'] (List.cons_ne_nil [] []) hnil] at hjoin
    exact hend ⟨_, hjoin⟩

/-! ## Starts and ends -/

lemma isSome_dropStart? {start cs : List Char} : (dropStart? start cs).isSome ↔ start <+: cs := by
  induction start generalizing cs with
  | nil => simp [dropStart?]
  | cons c start ih =>
      cases cs with
      | nil => simp [dropStart?]
      | cons d cs =>
          rw [dropStart?, List.cons_prefix_cons]
          split_ifs with h
          · rw [ih, and_iff_right h]
          · simp [h]

lemma dropStart?_append (start rest : List Char) : dropStart? start (start ++ rest) = some rest := by
  induction start with
  | nil => rfl
  | cons c start ih => rw [List.cons_append, dropStart?, if_pos rfl, ih]

/-- A text without blanks at its ends is not trimmed. -/
lemma trim_eq_self {cs : List Char} (hfirst : ∀ c ∈ cs.head?, isBlank c = false)
    (hlast : ∀ c ∈ cs.getLast?, isBlank c = false) : trim cs = cs := by
  have hdrop : ∀ {ds : List Char}, (∀ c ∈ ds.head?, isBlank c = false) →
      ds.dropWhile isBlank = ds := by
    rintro (_ | ⟨d, ds⟩) h
    · rfl
    · exact List.dropWhile_cons_of_neg (by simp [h d rfl])
  rw [trim, hdrop hfirst, trimEnd, hdrop (by rwa [List.head?_reverse]), List.reverse_reverse]

end Rebuild.Text
