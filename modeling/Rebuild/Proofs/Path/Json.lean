import Rebuild.Path.Json
import Rebuild.Proofs.Json.Records
import Rebuild.Proofs.Json.Spelling
import Rebuild.Proofs.Path.Spelling

/-!
# Paths that read back from JSON

A list of paths reads back as it is, and a set and a table read back as ones that answer the same, with
the same spellings; their inner shape may differ.
-/

namespace Rebuild

namespace Path

lemma list?_listToJson (paths : List Path) : Json.list? ofJson? (listToJson paths) = some paths := by
  have hread : ∀ p : Path, ofJson? p.toJson = some p := fun _ => rfl
  exact Json.list?_map hread paths

lemma plain_listToJson (n : Nat) (paths : List Path) : Json.Plain (n + 1) (listToJson paths) := by
  refine .array fun v hv => ?_
  obtain ⟨p, -, rfl⟩ := List.mem_map.1 hv
  exact .scalar trivial

end Path

namespace PathSet

/-- A set reads back as the same set. -/
lemma exists_ofJson? (s : PathSet) : ∃ s', ofJson? s.toJson = some s' ∧ s'.Equiv s := by
  refine ⟨collect s.toList, ?_, collect_toList s⟩
  rw [ofJson?, toJson, Path.list?_listToJson]
  rfl

end PathSet

namespace PathMap

variable {β γ : Type} (item : Json → Option γ) (write : β → Json) (R : β → γ → Prop)

/-- Reading members puts their values into the table, one by one. -/
lemma exists_foldlM_put (members : List (Path × β))
    (h : ∀ x ∈ members, ∃ v, item (write x.2) = some v ∧ R x.2 v) (m : PathMap γ) :
    ∃ m', (members.map fun x => (x.1.text, write x.2)).foldlM
        (fun (m : PathMap γ) (x : String × Json) => return m.put ⟨x.1⟩ (← item x.2)) m = some m'
      ∧ (∀ q, (∃ x ∈ members, compare x.1 q = .eq ∧ ∃ v, m'[q]? = some v ∧ R x.2 v)
        ∨ ((∀ x ∈ members, compare x.1 q ≠ .eq) ∧ m'[q]? = m[q]?))
      ∧ ∀ P, (∀ x ∈ members, P x.1) → m.Keys P → m'.Keys P := by
  induction members generalizing m with
  | nil => exact ⟨m, rfl, fun q => Or.inr ⟨by simp, rfl⟩, fun _ _ hkeys => hkeys⟩
  | cons x members ih =>
      obtain ⟨v, hv, hrel⟩ := h x List.mem_cons_self
      obtain ⟨m', hread, hanswer, hkeys⟩ :=
        ih (fun y hy => h y (List.mem_cons_of_mem _ hy)) (m.put x.1 v)
      refine ⟨m', ?_, fun q => ?_, fun P hP hm => ?_⟩
      · rw [List.map_cons, List.foldlM_cons]
        simp only [hv]
        exact hread
      · rcases hanswer q with ⟨y, hy, hyq, hfound⟩ | ⟨hnone, hold⟩
        · exact Or.inl ⟨y, List.mem_cons_of_mem _ hy, hyq, hfound⟩
        · rw [getElem?_put] at hold
          split_ifs at hold with hxq
          · exact Or.inl ⟨x, List.mem_cons_self, hxq, v, hold, hrel⟩
          · refine Or.inr ⟨fun y hy => ?_, hold⟩
            rcases List.mem_cons.1 hy with rfl | hy
            · exact hxq
            · exact hnone y hy
      · exact hkeys P (fun y hy => hP y (List.mem_cons_of_mem _ hy)) (hm.put (hP x List.mem_cons_self) v)

/-- A table reads back as one with the same keys, as they were spelled, and with values that read
back. -/
lemma exists_ofJson? (m : PathMap β)
    (h : m.Every fun v => ∃ w, item (write v) = some w ∧ R v w) :
    ∃ m', ofJson? item (m.toJson write) = some m'
      ∧ (∀ q : Path, Option.Rel R m[q]? m'[q]?) ∧ ∀ P, m.Keys P → m'.Keys P := by
  obtain ⟨m', hread, hanswer, hkeys⟩ := exists_foldlM_put item write R m.toList
    (fun x hx => h x.1 x.2 (getElem?_of_mem_toList hx)) ∅
  refine ⟨m', hread, fun q => ?_, fun P hm => ?_⟩
  · rcases hanswer q with ⟨x, hx, hxq, v, hv, hrel⟩ | ⟨hnone, hv⟩
    · rw [← getElem?_congr m hxq, getElem?_of_mem_toList hx, hv]
      exact .some hrel
    · have hm : m[q]? = none := by
        refine Option.eq_none_iff_forall_ne_some.2 fun w hw => ?_
        obtain ⟨p, hpq, hp⟩ :=
          Std.TreeMap.getElem?_eq_some_iff_exists_compare_eq_eq_and_mem_toList.1 hw
        exact hnone _ hp (Path.compare_comm.1 hpq)
      rw [hm, hv, Std.TreeMap.getElem?_emptyc]
      exact .none
  · exact hkeys P (fun x hx => hm.of_mem_toList hx) keys_empty

lemma plain_toJson (n : Nat) (m : PathMap β)
    (h : m.Every fun v => Json.Plain n (write v)) :
    Json.Plain (n + 1) (m.toJson write) := by
  refine .object fun x hx => ?_
  obtain ⟨y, hy, rfl⟩ := List.mem_map.1 hx
  exact h y.1 y.2 (getElem?_of_mem_toList hy)

end PathMap
end Rebuild
