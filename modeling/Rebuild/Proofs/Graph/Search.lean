import Mathlib.Tactic.Common
import Rebuild.Reach

/-!
# What the search finds

`Reach.order` is closed under `next` as far as the universe goes: nothing that a found member leads
to is left out (`settled_order`).  What carries the induction over `Reach.explore` is that a found
member either waits in the queue or has had its successors found (`Settled`).  Nothing else is found
(`forall_order`), and nothing twice (`nodup_order`).
-/

namespace Rebuild.Reach

variable {α : Type} [Ord α]

lemma among_of_mem [Std.ReflOrd α] {xs : List α} {x : α} (h : x ∈ xs) : among xs x = true :=
  among_iff.2 ⟨x, h, Std.ReflOrd.compare_self⟩

/-- Where only equal members compare equal, being among them is membership. -/
lemma among_iff_mem [Std.LawfulEqOrd α] {xs : List α} {x : α} :
    among xs x = true ↔ x ∈ xs := by
  rw [among_iff]
  simp

lemma among_append_left {xs ys : List α} {x : α} (h : among xs x = true) :
    among (xs ++ ys) x = true := by
  rw [among_append, h, Bool.true_or]

/-- After the fresh ones are added, all of a list is seen. -/
lemma among_append_fresh [Std.ReflOrd α] (seen : List α) {ys : List α} {y : α} (h : y ∈ ys) :
    among (seen ++ fresh seen ys) y = true := by
  induction ys generalizing seen with
  | nil => simp at h
  | cons z zs ih =>
      rw [fresh]
      by_cases hz : among seen z = true
      · rw [if_pos hz]
        rcases List.mem_cons.1 h with rfl | h
        · exact among_append_left hz
        · exact ih seen h
      · rw [if_neg hz, ← List.singleton_append, ← List.append_assoc]
        rcases List.mem_cons.1 h with rfl | h
        · exact among_append_left (among_of_mem (by simp))
        · exact ih _ h

lemma fresh_append (seen xs ys : List α) :
    fresh seen (xs ++ ys) = fresh seen xs ++ fresh (seen ++ fresh seen xs) ys := by
  induction xs generalizing seen with
  | nil => simp [fresh]
  | cons x xs ih =>
      rw [List.cons_append, fresh, fresh]
      split_ifs
      · exact ih seen
      · rw [ih, List.cons_append, List.append_assoc, List.singleton_append]

/-- Fresh ones are found once. -/
lemma nodup_fresh [Std.ReflOrd α] {seen ys : List α} : (fresh seen ys).Nodup := by
  induction ys generalizing seen with
  | nil => exact List.nodup_nil
  | cons y ys ih =>
      rw [fresh]
      split_ifs
      · exact ih
      · refine List.nodup_cons.2 ⟨fun hmem => ?_, ih⟩
        have hnot := (mem_of_mem_fresh hmem).2
        rw [among_of_mem (by simp)] at hnot
        cases hnot

/-- The successors of `x` that belong to the universe are seen. -/
def Settled (next : α → List α) (members seen : List α) (x : α) : Prop :=
  ∀ y ∈ next x, among members y = true → among seen y = true

lemma Settled.append {next : α → List α} {members seen more : List α} {x : α}
    (h : Settled next members seen x) : Settled next members (seen ++ more) x :=
  fun y hy hm => among_append_left (h y hy hm)

/-- The fresh successors settle the member that they come from. -/
lemma settled_append_fresh [Std.ReflOrd α] (next : α → List α) (members seen : List α) (x : α) :
    Settled next members (seen ++ fresh seen ((next x).filter (among members))) x :=
  fun _ hy hm => among_append_fresh seen (List.mem_filter.2 ⟨hy, hm⟩)

variable [Std.TransOrd α]

/-- One member of the queue is worked off. -/
lemma explore_cons (next : α → List α) (members : List α) (x : α) (rest seen : List α) :
    explore next members (x :: rest) seen
      = explore next members (rest ++ fresh seen ((next x).filter (among members)))
          (seen ++ fresh seen ((next x).filter (among members))) := by
  rw [explore]
  split_ifs with h
  · rw [h, List.append_nil, List.append_nil]
  · rfl

/-- A search that finds one member from its start, and none from that. -/
lemma order_eq_pair {next : α → List α} {members starts : List α} {x y : α}
    (hstart : fresh [] starts = [x]) (hx : fresh [x] ((next x).filter (among members)) = [y])
    (hy : fresh [x, y] ((next y).filter (among members)) = []) :
    order next members starts = [x, y] := by
  rw [order, hstart, explore_cons, hx, List.nil_append, List.singleton_append, explore_cons, hy,
    List.append_nil, List.append_nil, explore]

/-- What holds of the queue and is passed on by `next` to members holds of all that is found. -/
lemma forall_explore {P : α → Prop} {next : α → List α} {members queue seen : List α}
    (hnext : ∀ x, P x → ∀ y ∈ next x, among members y = true → P y) (hqueue : ∀ x ∈ queue, P x) (hseen : ∀ x ∈ seen, P x) :
    ∀ x ∈ explore next members queue seen, P x := by
  fun_induction explore next members queue seen with
  | case1 => exact hseen
  | case2 seen y rest found hfound ih =>
      exact ih (fun x hx => hqueue x (List.mem_cons_of_mem _ hx)) hseen
  | case3 seen y rest found hfound hlt ih =>
      have hnew : ∀ x ∈ found, P x := by
        intro x hx
        obtain ⟨hmem, hmember⟩ := List.mem_filter.1 (mem_of_mem_fresh hx).1
        exact hnext y (hqueue y List.mem_cons_self) x hmem hmember
      refine ih ?_ ?_
      · intro x hx
        rcases List.mem_append.1 hx with hx | hx
        · exact hqueue x (List.mem_cons_of_mem _ hx)
        · exact hnew x hx
      · intro x hx
        rcases List.mem_append.1 hx with hx | hx
        · exact hseen x hx
        · exact hnew x hx

/-- What holds of the starts and is passed on by `next` to members holds of all that is found. -/
lemma forall_order {P : α → Prop} {next : α → List α} {members starts : List α}
    (hnext : ∀ x, P x → ∀ y ∈ next x, among members y = true → P y) (hstarts : ∀ x ∈ starts, P x) :
    ∀ x ∈ order next members starts, P x := by
  have hfresh : ∀ x ∈ fresh [] starts, P x := fun x hx => hstarts x (mem_of_mem_fresh hx).1
  exact forall_explore hnext hfresh hfresh

/-- Nothing is found twice. -/
lemma nodup_explore {next : α → List α} {members queue seen : List α} (h : seen.Nodup) :
    (explore next members queue seen).Nodup := by
  fun_induction explore next members queue seen with
  | case1 => exact h
  | case2 seen y rest found hfound ih => exact ih h
  | case3 seen y rest found hfound hlt ih =>
      refine ih (List.nodup_append.2 ⟨h, nodup_fresh, ?_⟩)
      rintro x hx z hz rfl
      have hnot := (mem_of_mem_fresh hz).2
      rw [among_of_mem hx] at hnot
      cases hnot

lemma nodup_order {next : α → List α} {members starts : List α} :
    (order next members starts).Nodup :=
  nodup_explore nodup_fresh

lemma among_congr {xs : List α} {x y : α} (h : compare x y = .eq) : among xs x = among xs y := by
  simp only [among]
  simp only [Std.TransCmp.congr_left h]

/-- What was seen is found. -/
lemma among_explore {next : α → List α} {members queue seen : List α} {x : α}
    (h : among seen x = true) : among (explore next members queue seen) x = true := by
  fun_induction explore next members queue seen with
  | case1 => exact h
  | case2 seen y rest found hfound ih => exact ih h
  | case3 seen y rest found hfound hlt ih => exact ih (among_append_left h)

/-- Every member that is found is settled when the queue is empty. -/
lemma settled_explore {next : α → List α} {members queue seen : List α}
    (h : ∀ x ∈ seen, x ∈ queue ∨ Settled next members seen x) :
    ∀ x ∈ explore next members queue seen,
      Settled next members (explore next members queue seen) x := by
  fun_induction explore next members queue seen with
  | case1 seen => exact fun x hx => (h x hx).resolve_left (by simp)
  | case2 seen y rest found hfound ih =>
      refine ih fun x hx => ?_
      have hy : Settled next members seen y := by
        have := settled_append_fresh next members seen y
        rwa [show fresh seen ((next y).filter (among members)) = [] from hfound,
          List.append_nil] at this
      rcases h x hx with hmem | hsettled
      · rcases List.mem_cons.1 hmem with rfl | hmem
        · exact Or.inr hy
        · exact Or.inl hmem
      · exact Or.inr hsettled
  | case3 seen y rest found hfound hlt ih =>
      refine ih fun x hx => ?_
      rcases List.mem_append.1 hx with hx | hx
      · rcases h x hx with hmem | hsettled
        · rcases List.mem_cons.1 hmem with rfl | hmem
          · exact Or.inr (settled_append_fresh next members seen x)
          · exact Or.inl (List.mem_append_left _ hmem)
        · exact Or.inr hsettled.append
      · exact Or.inl (List.mem_append_right _ hx)

/-- The search finds its starts. -/
lemma among_order_of_mem {next : α → List α} {members starts : List α} {x : α}
    (h : x ∈ starts) : among (order next members starts) x = true := by
  have hfresh := among_append_fresh [] h
  rw [List.nil_append] at hfresh
  exact among_explore hfresh

/-- The search finds what a found member leads to. -/
lemma settled_order {next : α → List α} {members starts : List α} {x : α}
    (h : x ∈ order next members starts) : Settled next members (order next members starts) x :=
  settled_explore (fun _ hx => Or.inl hx) x h

/-- The search goes by the members that `next` leads to from what is found. -/
lemma explore_congr {P : α → Prop} {next next' : α → List α} {members members' : List α}
    (hnext : ∀ x, P x → ∀ y ∈ next x, among members y = true → P y)
    (hsame : ∀ x, P x → (next' x).filter (among members') = (next x).filter (among members))
    {queue : List α} (hqueue : ∀ x ∈ queue, P x) (seen : List α) :
    explore next' members' queue seen = explore next members queue seen := by
  fun_induction explore next members queue seen with
  | case1 seen => rw [explore]
  | case2 seen y rest found hfound ih =>
      have hy : fresh seen ((next' y).filter (among members')) = found := by
        rw [hsame y (hqueue y List.mem_cons_self)]
      rw [explore, dif_pos (hy.trans hfound), ih fun x hx => hqueue x (List.mem_cons_of_mem _ hx)]
  | case3 seen y rest found hfound hlt ih =>
      have hP := hqueue y List.mem_cons_self
      have hy : fresh seen ((next' y).filter (among members')) = found := by rw [hsame y hP]
      have hqueue' : ∀ x ∈ rest ++ found, P x := by
        intro x hx
        rcases List.mem_append.1 hx with hx | hx
        · exact hqueue x (List.mem_cons_of_mem _ hx)
        · obtain ⟨hmem, hmember⟩ := List.mem_filter.1 (mem_of_mem_fresh hx).1
          exact hnext y hP x hmem hmember
      rw [explore, dif_neg (hy ▸ hfound)]
      simp only [hy, ih hqueue']

/-- Where `next` leads to the same members from all that is found, the same is found. -/
lemma order_congr_of_forall {P : α → Prop} {next next' : α → List α} {members members' : List α}
    (hnext : ∀ x, P x → ∀ y ∈ next x, among members y = true → P y)
    (hsame : ∀ x, P x → (next' x).filter (among members') = (next x).filter (among members))
    {starts : List α} (hstarts : ∀ x ∈ starts, P x) :
    order next' members' starts = order next members starts :=
  explore_congr hnext hsame (fun x hx => hstarts x (mem_of_mem_fresh hx).1) _

/-- The search goes by what `next` lists and by who is in the universe. -/
lemma order_congr {next next' : α → List α} {members members' : List α} (hnext : ∀ x, next' x = next x)
    (hmembers : ∀ x, among members' x = among members x) (starts : List α) :
    order next' members' starts = order next members starts := by
  refine order_congr_of_forall (P := fun _ => True) (fun _ _ _ _ _ => trivial) (fun x _ => ?_)
    fun _ _ => trivial
  rw [hnext x, funext hmembers]

end Rebuild.Reach
