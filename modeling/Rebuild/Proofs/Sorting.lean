import Mathlib.Tactic.Common

/-!
# Sorted lists

What is sorted by `compare` is in order, whatever the type, and is so in one way; what is left when
repetitions are erased is a part of the list with the same members.
-/

namespace Rebuild

section

variable {α : Type} {cmp : α → α → Ordering} [Std.TransCmp cmp]

/-- `a` does not come after `b`, or the other way round. -/
lemma isLE_total (a b : α) : ((cmp a b).isLE || (cmp b a).isLE) = true := by
  rw [Bool.or_eq_true]
  refine or_iff_not_imp_left.2 fun hab => ?_
  rw [Std.OrientedCmp.lt_of_not_isLE hab]
  rfl

lemma pairwise_mergeSort (xs : List α) :
    (xs.mergeSort fun a b => (cmp a b).isLE).Pairwise fun a b => (cmp a b).isLE = true :=
  List.pairwise_mergeSort (fun _ _ _ => Std.TransCmp.isLE_trans) isLE_total xs

/-- What is strictly in order has no repetitions. -/
lemma nodup_of_pairwise_lt {xs : List α} (h : xs.Pairwise fun a b => cmp a b = .lt) : xs.Nodup := by
  refine h.imp fun {a b} hlt heq => ?_
  have hself : cmp a b = .eq := heq ▸ Std.ReflCmp.compare_self
  rw [hlt] at hself
  cases hself

/-- The order is strict where no two elements are on a par. -/
lemma pairwise_mergeSort_lt (cmp : α → α → Ordering) [Std.TransCmp cmp] {xs : List α}
    (h : xs.Pairwise fun a b => cmp a b ≠ .eq) :
    (xs.mergeSort fun a b => (cmp a b).isLE).Pairwise fun a b => cmp a b = .lt := by
  have hdistinct := h.perm (List.mergeSort_perm xs fun a b => (cmp a b).isLE).symm
    fun hne heq => hne (Std.OrientedCmp.eq_symm heq)
  exact ((pairwise_mergeSort xs).and hdistinct).imp fun ⟨hle, hne⟩ =>
    (Ordering.isLE_iff_eq_lt_or_eq_eq.1 hle).resolve_right hne

end

section

variable {α : Type} [Ord α] [Std.TransOrd α] [Std.LawfulEqOrd α] {xs ys : List α}

/-- There is one way to sort. -/
lemma eq_of_perm_of_pairwise (hperm : xs.Perm ys)
    (hxs : xs.Pairwise fun a b => (compare a b).isLE = true)
    (hys : ys.Pairwise fun a b => (compare a b).isLE = true) : xs = ys := by
  refine hperm.eq_of_pairwise (fun a b _ _ hab hba => ?_) hxs hys
  exact Std.LawfulEqOrd.eq_of_compare (Std.OrientedCmp.isLE_antisymm hab hba)

/-- There is one sorted list of these elements without repetitions. -/
lemma eq_of_mem_iff (hxs : xs.Pairwise fun a b => compare a b = .lt)
    (hys : ys.Pairwise fun a b => compare a b = .lt) (h : ∀ x, x ∈ xs ↔ x ∈ ys) : xs = ys := by
  have hsorted : ∀ zs : List α, zs.Pairwise (fun a b => compare a b = .lt) →
      zs.Pairwise fun a b => (compare a b).isLE = true :=
    fun zs hzs => hzs.imp fun hlt => by rw [hlt]; rfl
  have hperm := List.perm_ext_iff_of_nodup (nodup_of_pairwise_lt hxs) (nodup_of_pairwise_lt hys)
  exact eq_of_perm_of_pairwise (hperm.2 h) (hsorted xs hxs) (hsorted ys hys)

end

/-! ## Repetitions -/

variable {α : Type}

/-- The first of a run stays, after what was kept before. -/
lemma eraseRepsBy_loop_eq (r : α → α → Bool) (a : α) (xs kept : List α) :
    List.eraseRepsBy.loop r a xs kept = kept.reverse ++ List.eraseRepsBy.loop r a xs [] := by
  induction xs generalizing a kept with
  | nil => simp [List.eraseRepsBy.loop]
  | cons x xs ih =>
      rw [List.eraseRepsBy.loop, List.eraseRepsBy.loop]
      cases r a x with
      | true => exact ih a kept
      | false =>
          rw [ih x (a :: kept), ih x [a]]
          simp

variable [DecidableEq α]

lemma eraseReps_cons_cons (a b : α) (xs : List α) :
    (a :: b :: xs).eraseReps
      = if a = b then (a :: xs).eraseReps else a :: (b :: xs).eraseReps := by
  have hloop : (a :: b :: xs).eraseReps
      = match a == b with
        | true => (a :: xs).eraseReps
        | false => List.eraseRepsBy.loop (· == ·) b xs [a] := rfl
  rw [hloop]
  by_cases h : a = b
  · rw [if_pos h, beq_iff_eq.2 h]
  · rw [if_neg h, beq_eq_false_iff_ne.2 h]
    exact eraseRepsBy_loop_eq _ b xs [a]

lemma sublist_eraseReps : ∀ xs : List α, xs.eraseReps.Sublist xs
  | [] => List.Sublist.refl _
  | [_] => List.Sublist.refl _
  | a :: b :: xs => by
      rw [eraseReps_cons_cons]
      split_ifs with h
      · subst h
        exact (sublist_eraseReps (a :: xs)).trans ((List.sublist_cons_self a xs).cons_cons a)
      · exact (sublist_eraseReps (b :: xs)).cons_cons a

/-- The first element stays in front. -/
lemma exists_eraseReps_cons (a : α) (xs : List α) : ∃ rest, (a :: xs).eraseReps = a :: rest := by
  induction xs generalizing a with
  | nil => exact ⟨[], rfl⟩
  | cons b xs ih =>
      rw [eraseReps_cons_cons]
      split_ifs with h
      · exact ih a
      · exact ⟨_, rfl⟩

/-- No repetitions are left. -/
@[simp] lemma eraseReps_eraseReps : ∀ xs : List α, xs.eraseReps.eraseReps = xs.eraseReps
  | [] => rfl
  | [_] => rfl
  | a :: b :: xs => by
      rw [eraseReps_cons_cons]
      split_ifs with h
      · exact eraseReps_eraseReps (a :: xs)
      · obtain ⟨rest, hrest⟩ := exists_eraseReps_cons b xs
        have htail := eraseReps_eraseReps (b :: xs)
        rw [hrest] at htail ⊢
        rw [eraseReps_cons_cons, if_neg h, htail]

@[simp] lemma mem_eraseReps {x : α} : ∀ {xs : List α}, x ∈ xs.eraseReps ↔ x ∈ xs
  | [] => Iff.rfl
  | [_] => Iff.rfl
  | a :: b :: xs => by
      rw [eraseReps_cons_cons]
      split_ifs with h
      · rw [mem_eraseReps, List.mem_cons, List.mem_cons, List.mem_cons, ← h, ← or_assoc, or_self]
      · rw [List.mem_cons, mem_eraseReps, ← List.mem_cons]

end Rebuild
