import LoopPragma.Proofs.Nesting.Cycles
import LoopPragma.Proofs.Nesting.Nests

namespace LoopPragma.Nesting

open Relation

variable {n : Nat} (N : Nesting n)

-- The nodes of a queue in turn, where each one puts its children at the end of it.
def breadthFirst : List (Fin n) → List (Fin n)
  | [] => []
  | i :: queue => i :: breadthFirst (queue ++ N.children i)
termination_by queue => N.forestSize queue
decreasing_by
  simp only [N.forestSize_cons, N.forestSize_append, N.subtreeSize_eq i]
  omega

-- A node and everything below it, each once, nothing in front of what is higher up.
structure IsLevelOrder (i : Fin n) (nodes : List (Fin n)) : Prop where
  split : ∃ below, nodes = i :: below ∧
    ∀ j, j ∈ below ↔ TransGen (fun j p => N.parent j = some p) j i
  nodup : nodes.Nodup
  sorted : nodes.Pairwise fun a b => N.depth a ≤ N.depth b

variable {N}

theorem transGen_parent_iff {i j : Fin n} :
    TransGen (fun j p => N.parent j = some p) j i ↔ i ∈ N.ancestors j ∧ i ≠ j := by
  constructor
  · intro h
    refine ⟨?_, fun heq => ?_⟩
    · induction h with
      | single hp => exact mem_ancestors_of_parent hp
      | tail _ hp ih => exact ancestors_trans ih (mem_ancestors_of_parent hp)
    · have := depth_lt_of_transGen h
      subst heq
      omega
  · rintro ⟨h, hne⟩
    induction j using ancestors.induct (N := N) with
    | case1 j ih =>
        obtain ⟨p, hp, hip⟩ := (mem_ancestors_iff.mp h).resolve_left hne
        by_cases heq : i = p
        · exact heq ▸ .single hp
        · exact .head hp (ih p hp hip heq)

section Queue

theorem breadthFirst_append (level next : List (Fin n)) :
    N.breadthFirst (level ++ next) =
      level ++ N.breadthFirst (next ++ level.flatMap N.children) := by
  induction level generalizing next with
  | nil => simp
  | cons i level ih =>
      rw [List.cons_append, breadthFirst, List.append_assoc, ih]
      simp

-- With enough fuel the levels go on until there are no children left.
theorem levels_eq_breadthFirst {fuel : Nat} {level : List (Fin n)}
    (h : ∀ i ∈ level, n < N.depth i + fuel) : N.levels fuel level = N.breadthFirst level := by
  induction fuel generalizing level with
  | zero =>
      cases level with
      | nil => simp [levels, breadthFirst]
      | cons i level =>
          have := h i List.mem_cons_self
          have := N.depth_le_size i
          omega
  | succ fuel ih =>
      have hnext : ∀ c ∈ level.flatMap N.children, n < N.depth c + fuel := by
        intro c hc
        obtain ⟨p, hp, hcp⟩ := List.mem_flatMap.mp hc
        have := h p hp
        have := N.depth_of_parent (N.mem_children.mp hcp)
        omega
      have hqueue := N.breadthFirst_append level []
      rw [List.append_nil, List.nil_append] at hqueue
      rw [levels, ih hnext, hqueue]

theorem nest_eq_breadthFirst (i : Fin n) : N.nest i = N.breadthFirst [i] := by
  apply levels_eq_breadthFirst
  intro j _
  omega

end Queue

theorem pairwise_depth_levels {fuel d : Nat} {level : List (Fin n)}
    (h : ∀ i ∈ level, N.depth i = d) :
    (N.levels fuel level).Pairwise fun a b => N.depth a ≤ N.depth b := by
  induction fuel generalizing level d with
  | zero => exact List.Pairwise.nil
  | succ fuel ih =>
      have hnext : ∀ c ∈ level.flatMap N.children, N.depth c = d + 1 := by
        intro c hc
        obtain ⟨p, hp, hcp⟩ := List.mem_flatMap.mp hc
        rw [N.depth_of_parent (N.mem_children.mp hcp), h p hp]
      rw [levels, List.pairwise_append]
      refine ⟨?_, ih hnext, ?_⟩
      · apply List.pairwise_of_forall_mem_list
        intro a ha b hb
        rw [h a ha, h b hb]
      · intro a ha b hb
        obtain ⟨c, hc, hcb, -⟩ := mem_levels_iff.mp hb
        have := depth_le_of_mem_ancestors hcb
        have := hnext c hc
        have := h a ha
        omega

theorem isLevelOrder_nest (i : Fin n) : N.IsLevelOrder i (N.nest i) where
  split := by
    have hnest : N.nest i = i :: N.levels n (N.children i) := by simp [nest, levels]
    refine ⟨_, hnest, fun j => ?_⟩
    have hnodup := nodup_nest (N := N) i
    have hmem := mem_nest_iff (N := N) (i := i) (j := j)
    rw [hnest, List.nodup_cons] at hnodup
    rw [hnest, List.mem_cons] at hmem
    rw [transGen_parent_iff, ← hmem]
    constructor
    · intro hj
      refine ⟨Or.inr hj, fun heq => hnodup.1 (heq ▸ hj)⟩
    · rintro ⟨hj, hne⟩
      exact hj.resolve_left (Ne.symm hne)
  nodup := nodup_nest i
  sorted := pairwise_depth_levels fun j hj => congrArg N.depth (List.mem_singleton.mp hj)

theorem pairwise_apart_roots : N.roots.Pairwise (Apart (N := N)) := by
  have hnodup : N.roots.Nodup := (List.nodup_finRange n).filter _
  refine hnodup.imp_of_mem fun {a b} ha hb hne => ?_
  rw [mem_roots] at ha hb
  rw [Apart, N.ancestors_of_root ha, N.ancestors_of_root hb, List.mem_singleton,
    List.mem_singleton]
  exact ⟨hne, Ne.symm hne⟩

theorem flatMap_nest_roots_perm : (N.roots.flatMap N.nest).Perm (List.finRange n) := by
  refine (List.perm_ext_iff_of_nodup (nodup_flatMap_nest pairwise_apart_roots)
    (List.nodup_finRange n)).mpr fun i => ?_
  have hroot := N.mem_roots.mpr (N.parent_root i)
  have hmem := mem_nest_iff.mpr (N.root_mem_ancestors i)
  exact iff_of_true (List.mem_flatMap.mpr ⟨_, hroot, hmem⟩) (List.mem_finRange i)

end LoopPragma.Nesting
