import LoopPragma.Proofs.Nesting.Frontier

namespace LoopPragma.Nesting

variable {n : Nat} (N : Nesting n)

def preorder (i : Fin n) : List (Fin n) :=
  i :: (N.children i).attach.flatMap fun c => preorder c.1
termination_by n - N.depth i
decreasing_by
  have := N.depth_of_parent (N.mem_children.1 c.2)
  have := N.depth_le_size c.1
  omega

def path (i j : Fin n) : List (Fin n) := (N.ancestors j).filter fun a => (N.ancestors a).contains i

theorem preorder_eq (i : Fin n) : N.preorder i = i :: (N.children i).flatMap N.preorder := by
  have hchildren : ((N.children i).attach.flatMap fun c => N.preorder c.1) =
      (N.children i).flatMap N.preorder := by
    have h := List.flatMap_map (l := (N.children i).attach) Subtype.val N.preorder
    rw [List.attach_map_subtype_val] at h
    exact h.symm
  rw [preorder, hchildren]

variable {N} {keep : Fin n → Bool} {i j : Fin n}

theorem mem_path_iff {a : Fin n} : a ∈ N.path i j ↔ a ∈ N.ancestors j ∧ i ∈ N.ancestors a := by
  rw [path, List.mem_filter, List.contains_iff_mem]

theorem mem_preorder_iff : j ∈ N.preorder i ↔ i ∈ N.ancestors j := by
  induction i using preorder.induct (N := N) with
  | case1 i ih =>
      rw [preorder_eq, List.mem_cons, List.mem_flatMap]
      constructor
      · rintro (rfl | ⟨c, hc, hcj⟩)
        · exact N.mem_ancestors_self j
        · exact ancestors_trans ((ih ⟨c, hc⟩).mp hcj) (mem_ancestors_of_mem_children hc)
      · intro h
        by_cases hne : i = j
        · exact Or.inl hne.symm
        · obtain ⟨c, hc, hcj⟩ := exists_child_of_mem_ancestors h hne
          exact Or.inr ⟨c, hc, (ih ⟨c, hc⟩).mpr hcj⟩

theorem nodup_preorder (i : Fin n) : (N.preorder i).Nodup := by
  induction i using preorder.induct (N := N) with
  | case1 i ih =>
      rw [preorder_eq, List.nodup_cons, List.nodup_flatMap]
      refine ⟨fun hmem => ?_, fun c hc => ih ⟨c, hc⟩, ?_⟩
      · obtain ⟨c, hc, hci⟩ := List.mem_flatMap.mp hmem
        exact notMem_ancestors_of_mem_children hc (mem_preorder_iff.mp hci)
      · refine (nodup_children i).imp_of_mem fun hc hd hne j hcj hdj => ?_
        have hapart := apart_children hc hd hne
        exact hapart.not_both (mem_preorder_iff.mp hcj) (mem_preorder_iff.mp hdj)

section Prune

theorem prune_cons (i : Fin n) (pending : List (Fin n)) :
    N.prune keep (i :: pending) =
      if keep i then i :: N.prune keep (N.children i ++ pending) else N.prune keep pending := by
  rw [prune]

theorem prune_append (pending more : List (Fin n)) :
    N.prune keep (pending ++ more) = N.prune keep pending ++ N.prune keep more := by
  fun_induction N.prune keep pending with
  | case1 => rfl
  | case2 i pending hi ih =>
      rw [List.cons_append, prune_cons, if_pos hi, ← List.append_assoc, ih, List.cons_append]
  | case3 i pending hi ih => rw [List.cons_append, prune_cons, if_neg hi, ih]

theorem prune_eq_flatMap (pending : List (Fin n)) :
    N.prune keep pending = pending.flatMap fun i => N.prune keep [i] := by
  induction pending with
  | nil => rw [prune, List.flatMap_nil]
  | cons i pending ih => rw [List.flatMap_cons, ← ih, ← prune_append, List.singleton_append]

theorem prune_singleton (i : Fin n) :
    N.prune keep [i] =
      if keep i then i :: (N.children i).flatMap fun c => N.prune keep [c] else [] := by
  rw [prune_cons, List.append_nil, prune_eq_flatMap (N.children i), prune]

theorem all_path_of_child {c : Fin n} (hc : c ∈ N.children i) (hcj : c ∈ N.ancestors j) :
    (N.path i j).all keep = (keep i && (N.path c j).all keep) := by
  have hci := mem_ancestors_of_mem_children hc
  rw [Bool.eq_iff_iff, Bool.and_eq_true_iff, List.all_eq_true, List.all_eq_true]
  constructor
  · intro h
    refine ⟨h i (mem_path_iff.mpr ⟨ancestors_trans hcj hci, N.mem_ancestors_self i⟩), ?_⟩
    intro a ha
    obtain ⟨haj, hca⟩ := mem_path_iff.mp ha
    exact h a (mem_path_iff.mpr ⟨haj, ancestors_trans hca hci⟩)
  · rintro ⟨hi, h⟩ a ha
    obtain ⟨haj, hia⟩ := mem_path_iff.mp ha
    rcases eq_or_mem_ancestors_of_child hc hcj haj hia with rfl | hca
    · exact hi
    · exact h a (mem_path_iff.mpr ⟨haj, hca⟩)

theorem all_path_self (i : Fin n) : (N.path i i).all keep = keep i := by
  rw [Bool.eq_iff_iff, List.all_eq_true]
  constructor
  · intro h
    exact h i (mem_path_iff.mpr ⟨N.mem_ancestors_self i, N.mem_ancestors_self i⟩)
  · intro hi a ha
    obtain ⟨hai, hia⟩ := mem_path_iff.mp ha
    exact ancestors_antisymm hai hia ▸ hi

-- Pruning keeps the nodes whose whole way up to `i` passes the test.
theorem prune_eq_filter_preorder (i : Fin n) :
    N.prune keep [i] = (N.preorder i).filter fun j => (N.path i j).all keep := by
  induction i using preorder.induct (N := N) with
  | case1 i ih =>
      rw [prune_singleton]
      split
      · rename_i hi
        have hchild (c : Fin n) (hc : c ∈ N.children i) :
            N.prune keep [c] = (N.preorder c).filter fun j => (N.path i j).all keep := by
          rw [ih ⟨c, hc⟩]
          refine List.filter_congr fun j hj => ?_
          rw [all_path_of_child hc (mem_preorder_iff.mp hj), hi, Bool.true_and]
        rw [preorder_eq, List.filter_cons_of_pos (by rw [all_path_self, hi]), List.filter_flatMap,
          List.flatMap_congr hchild]
      · rename_i hi
        refine (List.filter_eq_nil_iff.mpr fun j hj hall => hi ?_).symm
        have hij := mem_path_iff.mpr ⟨mem_preorder_iff.mp hj, N.mem_ancestors_self i⟩
        exact List.all_eq_true.mp hall i hij

end Prune

end LoopPragma.Nesting
