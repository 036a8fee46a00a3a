/-!
# Breadth-first search

What can be reached along a function `next`, in the order in which it is found.  The search visits
only members of a finite universe beside its starts, and ends because every step either finds a
member of the universe or shortens the queue.

Members are identified by their order: two that compare equal are one.
-/

namespace Rebuild.Reach

/-- A stronger test that fails somewhere leaves fewer. -/
theorem length_filter_lt_of_imp {α : Type} {p q : α → Bool} {xs : List α} (himp : ∀ x ∈ xs, q x = true → p x = true)
    {x : α} (hx : x ∈ xs) (hp : p x = true) (hq : q x = false) :
    (xs.filter q).length < (xs.filter p).length := by
  induction xs with
  | nil => simp at hx
  | cons y ys ih =>
    have hle : (ys.filter q).length ≤ (ys.filter p).length := by
      have := List.countP_mono_left (l := ys) (p := q) (q := p)
        fun z hz => himp z (List.mem_cons_of_mem _ hz)
      simpa [List.countP_eq_length_filter] using this
    rcases List.mem_cons.1 hx with rfl | hx
    · simp [hp, hq]
      omega
    · have hlt := ih (fun z hz => himp z (List.mem_cons_of_mem _ hz)) hx
      cases hqy : q y with
      | true =>
        have hpy := himp y List.mem_cons_self hqy
        simp [hqy, hpy]
        omega
      | false => cases hpy : p y <;> simp [hqy, hpy] <;> omega

variable {α : Type} [Ord α]

/-- `x` compares equal to one of the list. -/
def among (xs : List α) (x : α) : Bool := xs.any fun y => compare x y == .eq

/-- Those that are not among `seen`, each once, in order. -/
def fresh (seen : List α) : List α → List α
  | [] => []
  | y :: ys => if among seen y then fresh seen ys else y :: fresh (seen ++ [y]) ys

theorem among_iff {xs : List α} {x : α} :
    among xs x = true ↔ ∃ y ∈ xs, compare x y = .eq := by
  simp [among]

theorem among_append {xs ys : List α} {x : α} :
    among (xs ++ ys) x = (among xs x || among ys x) := by
  simp [among]

/-- Every fresh one comes from the list and is not seen. -/
theorem mem_of_mem_fresh {seen ys : List α} {y : α} (h : y ∈ fresh seen ys) :
    y ∈ ys ∧ among seen y = false := by
  induction ys generalizing seen with
  | nil => simp [fresh] at h
  | cons z zs ih =>
    rw [fresh] at h
    split at h
    · have := ih h
      exact ⟨List.mem_cons_of_mem _ this.1, this.2⟩
    · rename_i hz
      rcases List.mem_cons.1 h with rfl | h
      · exact ⟨List.mem_cons_self, by simpa using hz⟩
      · have := ih h
        rw [among_append] at this
        exact ⟨List.mem_cons_of_mem _ this.1, (Bool.or_eq_false_iff.1 this.2).1⟩

/-- The members of the universe that are not seen. -/
def unseen (members seen : List α) : List α := members.filter fun u => !among seen u

variable [Std.TransOrd α]

/-- Finding a member of the universe that is not seen leaves fewer. -/
theorem length_unseen_lt {members seen ys : List α} {y : α}
    (hy : y ∈ fresh seen (ys.filter (among members))) :
    (unseen members (seen ++ fresh seen (ys.filter (among members)))).length <
      (unseen members seen).length := by
  obtain ⟨hmem, hseen⟩ := mem_of_mem_fresh hy
  obtain ⟨u, hu, hyu⟩ := among_iff.1 (List.mem_filter.1 hmem).2
  refine length_filter_lt_of_imp (x := u) ?_ hu ?_ ?_
  · intro x _ hx
    simp [among_append] at hx
    simpa using hx.1
  · simp only [Bool.not_eq_true']
    rw [Bool.eq_false_iff] at hseen ⊢
    intro hus
    obtain ⟨z, hz, huz⟩ := among_iff.1 hus
    exact hseen (among_iff.2 ⟨z, hz, Std.TransCmp.eq_trans hyu huz⟩)
  · simp only [Bool.not_eq_false']
    rw [among_append, Bool.or_eq_true]
    exact Or.inr (among_iff.2 ⟨y, hy, Std.OrientedCmp.eq_symm hyu⟩)

/-- What is found from a queue when `seen` is found already: first `seen`, then the rest in the order
of the search. -/
def explore (next : α → List α) (members queue seen : List α) : List α :=
  match queue with
  | [] => seen
  | x :: rest =>
    let found := fresh seen ((next x).filter (among members))
    if h : found = [] then explore next members rest seen
    else
      have : (unseen members (seen ++ found)).length < (unseen members seen).length := by
        obtain ⟨y, hy⟩ := List.exists_mem_of_ne_nil _ h
        exact length_unseen_lt hy
      explore next members (rest ++ found) (seen ++ found)
termination_by ((unseen members seen).length, queue.length)

/-- The starts, each once, and everything that `next` leads to from them. -/
def order (next : α → List α) (members starts : List α) : List α :=
  let found := fresh [] starts
  explore next members found found

end Rebuild.Reach
