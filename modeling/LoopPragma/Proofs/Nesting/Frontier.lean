import LoopPragma.Proofs.Model.Checks
import LoopPragma.Proofs.Nesting.Descent
import LoopPragma.Proofs.Nesting.Nests

namespace LoopPragma.Nesting

variable {n : Nat} (N : Nesting n)

def Leads (goOn : Fin n → Bool) (p i : Fin n) : Prop :=
  p ∈ N.ancestors i ∧ ∀ a ∈ N.ancestors i, a ≠ i → p ∈ N.ancestors a → goOn a

def Reached (goOn : Fin n → Bool) (pending : List (Fin n)) (i : Fin n) : Prop :=
  ∃ p ∈ pending, N.Leads goOn p i

-- The nodes at which a descent from the pending nodes turns back, in the order in which it comes to
-- them.
def frontier (stop : Fin n → Bool) : List (Fin n) → List (Fin n)
  | [] => []
  | i :: pending =>
    if stop i then i :: frontier stop pending else frontier stop (N.children i ++ pending)
termination_by pending => N.forestSize pending
decreasing_by
  all_goals simp only [N.forestSize_cons, N.forestSize_append, N.subtreeSize_eq i]
  all_goals omega

def goesOn {ε : Type} (visit : Fin n → Except ε Bool) (i : Fin n) : Bool :=
  match visit i with
  | .ok goOn => goOn
  | .error _ => false

variable {N}

theorem eq_or_mem_ancestors_of_child {a b c i : Fin n} (hc : c ∈ N.children a)
    (hci : c ∈ N.ancestors i) (hbi : b ∈ N.ancestors i) (hab : a ∈ N.ancestors b) :
    b = a ∨ c ∈ N.ancestors b := by
  rcases ancestors_total hci hbi with hcb | hbc
  · exact Or.inr hcb
  · rcases mem_ancestors_iff.mp hbc with rfl | ⟨p, hp, hbp⟩
    · exact Or.inr (N.mem_ancestors_self b)
    · obtain rfl : a = p := Option.some.inj ((N.mem_children.mp hc).symm.trans hp)
      exact Or.inl (ancestors_antisymm hbp hab)

section Reached

variable {goOn : Fin n → Bool} {pending : List (Fin n)} {i j : Fin n}

theorem leads_iff :
    N.Leads goOn j i ↔ i = j ∨ goOn j ∧ ∃ c ∈ N.children j, N.Leads goOn c i := by
  constructor
  · rintro ⟨hji, hall⟩
    by_cases hne : i = j
    · exact Or.inl hne
    · obtain ⟨c, hc, hci⟩ := exists_child_of_mem_ancestors hji (Ne.symm hne)
      have hj := hall j hji (Ne.symm hne) (N.mem_ancestors_self j)
      refine Or.inr ⟨hj, c, hc, hci, fun a ha hai hca => ?_⟩
      exact hall a ha hai (ancestors_trans hca (mem_ancestors_of_mem_children hc))
  · rintro (rfl | ⟨hj, c, hc, hci, hall⟩)
    · exact ⟨N.mem_ancestors_self i, fun a ha hne hia => absurd (ancestors_antisymm ha hia) hne⟩
    · refine ⟨ancestors_trans hci (mem_ancestors_of_mem_children hc), fun a ha hne hja => ?_⟩
      rcases eq_or_mem_ancestors_of_child hc hci ha hja with rfl | hca
      · exact hj
      · exact hall a ha hne hca

theorem reached_cons (hj : goOn j) :
    N.Reached goOn (j :: pending) i ↔ i = j ∨ N.Reached goOn (N.children j ++ pending) i := by
  simp only [Reached, List.mem_cons, List.mem_append, or_and_right, exists_or, exists_eq_left,
    leads_iff (j := j), hj, true_and, or_assoc]

theorem reached_cons_of_not (hj : ¬goOn j) :
    N.Reached goOn (j :: pending) i ↔ i = j ∨ N.Reached goOn pending i := by
  simp only [Reached, List.mem_cons, or_and_right, exists_or, exists_eq_left, leads_iff (j := j),
    hj, Bool.false_eq_true, false_and, or_false]

theorem reached_nil : ¬N.Reached goOn [] i := by
  rintro ⟨p, hp, -⟩
  cases hp

theorem reached_singleton : N.Reached goOn [j] i ↔ N.Leads goOn j i := by simp [Reached]

end Reached

variable {pending : List (Fin n)} {i : Fin n}

theorem mem_prune_iff {keep : Fin n → Bool} :
    i ∈ N.prune keep pending ↔ keep i ∧ N.Reached keep pending i := by
  fun_induction N.prune keep pending with
  | case1 => simp [reached_nil]
  | case2 j pending hj ih =>
      rw [List.mem_cons, ih, reached_cons hj]
      refine ⟨?_, fun h => h.2.imp_right fun hr => ⟨h.1, hr⟩⟩
      rintro (rfl | ⟨hi, hr⟩)
      · exact ⟨hj, Or.inl rfl⟩
      · exact ⟨hi, Or.inr hr⟩
  | case3 j pending hj ih =>
      rw [ih, reached_cons_of_not hj]
      refine and_congr_right fun hi => (or_iff_right ?_).symm
      rintro rfl
      exact hj hi

theorem mem_frontier_iff {stop : Fin n → Bool} :
    i ∈ N.frontier stop pending ↔ stop i ∧ N.Reached (!stop ·) pending i := by
  fun_induction N.frontier stop pending with
  | case1 => simp [reached_nil]
  | case2 j pending hj ih =>
      rw [List.mem_cons, ih, reached_cons_of_not (by simp [hj])]
      refine ⟨?_, fun h => h.2.imp_right fun hr => ⟨h.1, hr⟩⟩
      rintro (rfl | ⟨hi, hr⟩)
      · exact ⟨hj, Or.inl rfl⟩
      · exact ⟨hi, Or.inr hr⟩
  | case3 j pending hj ih =>
      rw [ih, reached_cons (by simp [hj])]
      refine and_congr_right fun hi => (or_iff_right ?_).symm
      rintro rfl
      exact hj hi

section Walks

variable {ε : Type} {visit : Fin n → Except ε Bool}

theorem walk_cons {j : Fin n} {goOn : Bool} (hj : visit j = .ok goOn) :
    N.walk visit (j :: pending) =
      if goOn then N.walk visit (N.children j ++ pending) else N.walk visit pending := by
  rw [walk, hj]
  rfl

theorem walk_cons_error {j : Fin n} {e : ε} (hj : visit j = .error e) :
    N.walk visit (j :: pending) = .error e := by
  rw [walk, hj]
  rfl

theorem exists_of_walk_eq_error {e : ε} (h : N.walk visit pending = .error e) :
    ∃ i, visit i = .error e ∧ N.Reached (goesOn visit) pending i := by
  induction pending using Nesting.walk.induct (N := N) with
  | case1 =>
      rw [walk] at h
      cases h
  | case2 j pending ihChildren ihPending =>
      cases hj : visit j with
      | error e' =>
          rw [walk_cons_error hj] at h
          cases h
          refine ⟨j, hj, (reached_cons_of_not ?_).mpr (Or.inl rfl)⟩
          simp [goesOn, hj]
      | ok goOn =>
          rw [walk_cons hj] at h
          cases goOn with
          | true =>
              obtain ⟨i, hi, hreached⟩ := ihChildren h
              refine ⟨i, hi, (reached_cons ?_).mpr (Or.inr hreached)⟩
              simp [goesOn, hj]
          | false =>
              obtain ⟨i, hi, hreached⟩ := ihPending h
              refine ⟨i, hi, (reached_cons_of_not ?_).mpr (Or.inr hreached)⟩
              simp [goesOn, hj]

-- An error that the walk gets down to may come behind another one.
theorem exists_walk_eq_error {e : ε} (hi : visit i = .error e)
    (hreached : N.Reached (goesOn visit) pending i) : ∃ e', N.walk visit pending = .error e' := by
  induction pending using Nesting.walk.induct (N := N) with
  | case1 => exact absurd hreached reached_nil
  | case2 j pending ihChildren ihPending =>
      cases hj : visit j with
      | error e' => exact ⟨e', walk_cons_error hj⟩
      | ok goOn =>
          have hne : i ≠ j := by
            rintro rfl
            rw [hi] at hj
            cases hj
          rw [walk_cons hj]
          cases goOn with
          | true =>
              rw [reached_cons (by simp [goesOn, hj]), or_iff_right hne] at hreached
              exact ihChildren hreached
          | false =>
              rw [reached_cons_of_not (by simp [goesOn, hj]), or_iff_right hne] at hreached
              exact ihPending hreached

end Walks

theorem nodup_prune {keep : Fin n → Bool} (h : pending.Pairwise (Apart (N := N))) :
    (N.prune keep pending).Nodup := by
  fun_induction N.prune keep pending with
  | case1 => exact List.nodup_nil
  | case2 j pending hj ih =>
      refine List.nodup_cons.mpr ⟨fun hmem => ?_, ih (Itinerary.apart_children_append h)⟩
      obtain ⟨-, p, hp, hpj, -⟩ := mem_prune_iff.mp hmem
      rcases List.mem_append.mp hp with hc | hp
      · exact notMem_ancestors_of_mem_children hc hpj
      · exact ((List.pairwise_cons.mp h).1 p hp).2 hpj
  | case3 j pending _ ih => exact ih (List.pairwise_cons.mp h).2

-- The descent does not go on below the nodes of the frontier, so they lie on different branches.
theorem pairwise_apart_frontier {stop : Fin n → Bool} (h : pending.Pairwise (Apart (N := N))) :
    (N.frontier stop pending).Pairwise (Apart (N := N)) := by
  fun_induction N.frontier stop pending with
  | case1 => exact .nil
  | case2 j pending _ ih =>
      obtain ⟨hj, hp⟩ := List.pairwise_cons.mp h
      refine List.pairwise_cons.mpr ⟨fun k hk => ?_, ih hp⟩
      obtain ⟨-, p, hpm, hpk, -⟩ := mem_frontier_iff.mp hk
      exact ((hj p hpm).symm.of_mem_ancestors hpk).symm
  | case3 j pending _ ih => exact ih (Itinerary.apart_children_append h)

theorem length_prune_le (keep : Fin n → Bool) (i : Fin n) :
    (N.prune keep [i]).length ≤ (N.nest i).length := by
  have hnodup : (N.prune keep [i]).Nodup := nodup_prune (List.pairwise_singleton _ i)
  have hsub : N.prune keep [i] ⊆ N.nest i := by
    intro j hj
    have hleads := reached_singleton.mp (mem_prune_iff.mp hj).2
    exact mem_nest_iff.mpr hleads.1
  exact (List.subperm_of_subset hnodup hsub).length_le

end LoopPragma.Nesting
