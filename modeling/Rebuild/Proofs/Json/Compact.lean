import Rebuild.Proofs.Json.Spelling

/-!
# Text without blanks read back

Compact text is the spelling of a value that has no blank anywhere (`spells_compact`), and so it reads
back as indented text does: `parse?_compact`.
-/

namespace Rebuild.Json

lemma compactItems_eq (items : List Json) :
    compactItems items = Text.join [','] (items.map compactChars) := by
  refine eq_join_map (by rw [compactItems]) (fun v => ?_) (fun v next items => ?_) items
  all_goals rw [compactItems]

/-- The text of a member without blanks. -/
def compactMember (m : String × Json) : List Char := quoted m.1 ++ ':' :: compactChars m.2

lemma compactMembers_eq (members : List (String × Json)) :
    compactMembers members = Text.join [','] (members.map compactMember) := by
  refine eq_join_map (by rw [compactMembers]) (fun m => ?_) (fun m next members => ?_) members
  all_goals
    rw [compactMembers]
    simp [compactMember]

/-- Compact text is a spelling. -/
lemma spells_compact {n : Nat} {v : Json} (h : Plain n v) : Spells n v.compactChars v := by
  induction h with
  | @scalar depth v hv =>
      have htext : v.compactChars = scalarText v := by
        cases v with
        | array items => exact absurd hv id
        | object members => exact absurd hv id
        | null | bool | number | string => simp [compactChars]
      rw [htext]
      exact .scalar hv
  | @array depth items h ih =>
      let spelled (v : Json) : List Char × Json := (v.compactChars, v)
      have hitems : ∀ x ∈ items.map spelled, Spells depth x.1 x.2 := by
        intro x hx
        obtain ⟨v, hv, rfl⟩ := List.mem_map.1 hx
        exact ih v hv
      have harray := Spells.array blanks_nil hitems
      have hvalues : (items.map spelled).map Prod.snd = items := by
        rw [List.map_map]
        exact List.map_id items
      have htexts : (items.map spelled).map Prod.fst = items.map compactChars := by
        rw [List.map_map]
        rfl
      rw [hvalues, htexts, ← compactItems_eq] at harray
      rw [compactChars]
      exact harray
  | @object depth members h ih =>
      let spelled (m : String × Json) : Member := ⟨[], m.1, m.2.compactChars, m.2⟩
      have hbefore : ∀ x ∈ members.map spelled, Blanks x.before := by
        intro x hx
        obtain ⟨m, -, rfl⟩ := List.mem_map.1 hx
        exact blanks_nil
      have hmembers : ∀ x ∈ members.map spelled, Spells depth x.text x.value := by
        intro x hx
        obtain ⟨m, hm, rfl⟩ := List.mem_map.1 hx
        exact ih m hm
      have hobject := Spells.object blanks_nil hbefore hmembers
      have hvalues : (members.map spelled).map (fun m => (m.name, m.value)) = members := by
        rw [List.map_map]
        exact List.map_id members
      have htexts : (members.map spelled).map Member.spelling = members.map compactMember := by
        rw [List.map_map]
        rfl
      rw [hvalues, htexts, ← compactMembers_eq] at hobject
      rw [compactChars]
      exact hobject

/-- **What is written without blanks reads back.** -/
theorem parse?_compact {v : Json} (h : Plain maxDepth v) : parse? (compact v) = some v :=
  parse?_of_spells (spells_compact h)

end Rebuild.Json
