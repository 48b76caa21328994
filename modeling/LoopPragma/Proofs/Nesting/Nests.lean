import LoopPragma.Proofs.Nesting.Ancestors
import Mathlib.Algebra.GroupWithZero.Nat
import Mathlib.Data.Fintype.Card
import Mathlib.Data.List.Pairwise

namespace LoopPragma.Nesting

variable {n : Nat} {N : Nesting n}

theorem Apart.ne {a b : Fin n} (h : Apart (N := N) a b) : a ≠ b := by
  rintro rfl
  exact h.1 (N.mem_ancestors_self a)

instance : Std.Symm (Apart (N := N)) := ⟨fun _ _ => Apart.symm⟩

theorem length_le_of_nodup {nodes : List (Fin n)} (h : nodes.Nodup) : nodes.length ≤ n := by
  simpa using h.length_le_card

section Levels

theorem mem_levels_iff {fuel : Nat} {level : List (Fin n)} {i : Fin n} :
    i ∈ N.levels fuel level ↔
      ∃ p ∈ level, p ∈ N.ancestors i ∧ N.depth i < N.depth p + fuel := by
  induction fuel generalizing level with
  | zero =>
      refine ⟨fun h => absurd h List.not_mem_nil, ?_⟩
      rintro ⟨p, -, hp, hlt⟩
      have := depth_le_of_mem_ancestors hp
      omega
  | succ fuel ih =>
      rw [levels, List.mem_append, ih]
      constructor
      · rintro (hi | ⟨c, hc, hci, hlt⟩)
        · exact ⟨i, hi, N.mem_ancestors_self i, by omega⟩
        · obtain ⟨p, hp, hcp⟩ := List.mem_flatMap.mp hc
          have hd := N.depth_of_parent (N.mem_children.mp hcp)
          exact ⟨p, hp, ancestors_trans hci (mem_ancestors_of_mem_children hcp), by omega⟩
      · rintro ⟨p, hp, hpi, hlt⟩
        by_cases hne : p = i
        · exact Or.inl (hne ▸ hp)
        · obtain ⟨c, hc, hci⟩ := exists_child_of_mem_ancestors hpi hne
          have hd := N.depth_of_parent (N.mem_children.mp hc)
          exact Or.inr ⟨c, List.mem_flatMap.mpr ⟨p, hp, hc⟩, hci, by omega⟩

theorem pairwise_apart_flatMap_children {level : List (Fin n)}
    (h : level.Pairwise (Apart (N := N))) :
    (level.flatMap N.children).Pairwise (Apart (N := N)) := by
  rw [List.pairwise_flatMap]
  refine ⟨fun p _ => ?_, h.imp ?_⟩
  · exact (nodup_children p).imp_of_mem fun hc hd hne => apart_children hc hd hne
  · intro p q hpq c hc d hd
    have hcq := hpq.of_mem_ancestors (mem_ancestors_of_mem_children hc)
    exact (hcq.symm.of_mem_ancestors (mem_ancestors_of_mem_children hd)).symm

theorem nodup_levels {fuel : Nat} {level : List (Fin n)} (h : level.Pairwise (Apart (N := N))) :
    (N.levels fuel level).Nodup := by
  induction fuel generalizing level with
  | zero => exact List.nodup_nil
  | succ fuel ih =>
      refine List.nodup_append.mpr ⟨h.imp Apart.ne, ih (pairwise_apart_flatMap_children h), ?_⟩
      rintro i hi j hj rfl
      obtain ⟨c, hc, hci, -⟩ := mem_levels_iff.mp hj
      obtain ⟨p, hp, hcp⟩ := List.mem_flatMap.mp hc
      have hpi := ancestors_trans hci (mem_ancestors_of_mem_children hcp)
      by_cases hne : p = i
      · exact notMem_ancestors_of_mem_children hcp (hne ▸ hci)
      · exact (h.forall hp hi hne).1 hpi

end Levels

theorem mem_nest_iff {i j : Fin n} : j ∈ N.nest i ↔ i ∈ N.ancestors j := by
  have hdeep := N.depth_le_size j
  rw [nest, mem_levels_iff]
  constructor
  · rintro ⟨p, hp, hpj, -⟩
    exact List.mem_singleton.mp hp ▸ hpj
  · intro h
    exact ⟨i, List.mem_singleton_self i, h, by omega⟩

theorem nodup_nest (i : Fin n) : (N.nest i).Nodup :=
  nodup_levels (List.pairwise_singleton _ i)

theorem length_nest_le (i : Fin n) : (N.nest i).length ≤ n := length_le_of_nodup (nodup_nest i)

theorem length_nest_pos (i : Fin n) : 0 < (N.nest i).length :=
  List.length_pos_of_mem (mem_nest_iff.mpr (N.mem_ancestors_self i))

theorem nodup_flatMap_nest {nodes : List (Fin n)} (h : nodes.Pairwise (Apart (N := N))) :
    (nodes.flatMap N.nest).Nodup := by
  refine List.nodup_flatMap.mpr ⟨fun i _ => nodup_nest i, h.imp fun {a b} hab => ?_⟩
  intro i ha hb
  exact hab.not_both (mem_nest_iff.mp ha) (mem_nest_iff.mp hb)

theorem sum_length_nest_eq {nodes : List (Fin n)} (h : nodes.Pairwise (Apart (N := N))) :
    (nodes.map fun i => (N.nest i).length).sum =
      (List.finRange n).countP fun i => (N.ancestors i).any (· ∈ nodes) := by
  have hmem (i : Fin n) : i ∈ nodes.flatMap N.nest ↔
      i ∈ (List.finRange n).filter fun i => (N.ancestors i).any (· ∈ nodes) := by
    simp [mem_nest_iff, and_comm]
  have hperm := (List.perm_ext_iff_of_nodup (nodup_flatMap_nest h)
    ((List.nodup_finRange n).filter _)).mpr hmem
  rw [← List.length_flatMap, hperm.length_eq, List.countP_eq_length_filter]

theorem sum_length_nest_le {nodes : List (Fin n)} (h : nodes.Pairwise (Apart (N := N))) :
    (nodes.map fun i => (N.nest i).length).sum ≤ n := by
  rw [sum_length_nest_eq h]
  exact List.countP_le_length.trans_eq List.length_finRange

end LoopPragma.Nesting
