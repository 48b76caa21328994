import LoopPragma.Proofs.Nesting.Ancestors
import Mathlib.Data.List.Induction

namespace LoopPragma.Nesting

variable {n : Nat}

structure IsDeepest (N : Nesting n) (nodes : List (Fin n)) (i : Fin n) : Prop where
  mem : i ∈ nodes
  depth_le : ∀ j ∈ nodes, N.depth j ≤ N.depth i

variable {N : Nesting n} {nodes : List (Fin n)} {i : Fin n}

theorem deepest_concat (nodes : List (Fin n)) (i : Fin n) :
    N.deepest (nodes ++ [i]) = (N.deepest nodes).elim (some i) fun best =>
      if N.depth best ≤ N.depth i then some i else some best := by
  rw [deepest, List.foldl_append]
  rfl

theorem exists_deepest (hne : nodes ≠ []) :
    ∃ i, N.deepest nodes = some i ∧ N.IsDeepest nodes i := by
  induction nodes using List.reverseRecOn with
  | nil => exact absurd rfl hne
  | append_singleton nodes i ih =>
      rw [deepest_concat]
      by_cases hempty : nodes = []
      · subst hempty
        exact ⟨i, rfl, by simp, by simp⟩
      · obtain ⟨best, hbest, hdeepest⟩ := ih hempty
        rw [hbest, Option.elim_some]
        have hall (k : Fin n) (hold : N.depth best ≤ N.depth k) (hnew : N.depth i ≤ N.depth k) :
            ∀ j ∈ nodes ++ [i], N.depth j ≤ N.depth k := by
          intro j hj
          rcases List.mem_append.mp hj with hj | hj
          · exact Nat.le_trans (hdeepest.depth_le j hj) hold
          · exact List.mem_singleton.mp hj ▸ hnew
        by_cases hle : N.depth best ≤ N.depth i
        · exact ⟨i, if_pos hle, by simp, hall i hle (Nat.le_refl _)⟩
        · exact ⟨best, if_neg hle, List.mem_append_left _ hdeepest.mem,
            hall best (Nat.le_refl _) (Nat.le_of_not_le hle)⟩

theorem isDeepest_of_deepest (h : N.deepest nodes = some i) : N.IsDeepest nodes i := by
  have hne : nodes ≠ [] := by
    rintro rfl
    cases h
  obtain ⟨j, hj, hdeepest⟩ := N.exists_deepest hne
  obtain rfl : i = j := Option.some.inj (h.symm.trans hj)
  exact hdeepest

theorem IsDeepest.mem_ancestors {j : Fin n} (h : N.IsDeepest nodes i) (hj : j ∈ nodes)
    (hcomparable : i ∈ N.ancestors j ∨ j ∈ N.ancestors i) : j ∈ N.ancestors i := by
  rcases hcomparable with hij | hji
  · by_cases hne : i = j
    · exact hne ▸ N.mem_ancestors_self i
    · have hlt := depth_lt_of_mem_ancestors hij hne
      have hle := h.depth_le j hj
      omega
  · exact hji

theorem deepest_eq_none_iff : N.deepest nodes = none ↔ nodes = [] := by
  constructor
  · intro h
    by_contra hne
    obtain ⟨i, hi, -⟩ := N.exists_deepest hne
    simp [h] at hi
  · rintro rfl
    rfl

structure IsInnermost (N : Nesting n) (set : Fin n → Prop) (i : Fin n) : Prop where
  mem : set i
  outranks : ∀ j, set j → N.depth j < N.depth i ∨ N.depth j = N.depth i ∧ j ≤ i

theorem IsInnermost.unique {set : Fin n → Prop} {j : Fin n} (hi : N.IsInnermost set i)
    (hj : N.IsInnermost set j) : i = j := by
  have hij := hj.outranks i hi.mem
  have hji := hi.outranks j hj.mem
  omega

theorem isInnermost_of_deepest (hsorted : nodes.Pairwise (· < ·)) (h : N.deepest nodes = some i) :
    N.IsInnermost (· ∈ nodes) i := by
  induction nodes using List.reverseRecOn generalizing i with
  | nil => cases h
  | append_singleton nodes last ih =>
      obtain ⟨hnodes, -, hlast⟩ := List.pairwise_append.mp hsorted
      refine ⟨(isDeepest_of_deepest h).mem, fun j hj => ?_⟩
      have hdepth := (isDeepest_of_deepest h).depth_le j hj
      rw [deepest_concat] at h
      cases hbest : N.deepest nodes with
      | none =>
          obtain rfl := deepest_eq_none_iff.mp hbest
          simp_all
      | some best =>
          rw [hbest, Option.elim_some] at h
          rcases List.mem_append.mp hj with hj | hj
          · have hlt := hlast j hj last (List.mem_singleton_self last)
            split at h
            · obtain rfl := Option.some.inj h
              omega
            · obtain rfl := Option.some.inj h
              exact (ih hnodes hbest).outranks j hj
          · obtain rfl := List.mem_singleton.mp hj
            split at h
            · obtain rfl := Option.some.inj h
              omega
            · obtain rfl := Option.some.inj h
              omega

theorem deepest_eq_some_iff (hsorted : nodes.Pairwise (· < ·)) :
    N.deepest nodes = some i ↔ N.IsInnermost (· ∈ nodes) i := by
  constructor
  · exact isInnermost_of_deepest hsorted
  · intro hi
    obtain ⟨j, hj, -⟩ := N.exists_deepest (List.ne_nil_of_mem hi.mem)
    rw [hj, hi.unique (isInnermost_of_deepest hsorted hj)]

section Filter

variable {test : Fin n → Bool}

theorem deepest_filter_eq_some_iff :
    N.deepest ((List.finRange n).filter test) = some i ↔ N.IsInnermost (fun i => test i) i := by
  have hsorted := (List.pairwise_lt_finRange n).filter test
  rw [deepest_eq_some_iff hsorted]
  simp only [List.mem_filter, List.mem_finRange, true_and]

theorem deepest_filter_eq_none_iff :
    N.deepest ((List.finRange n).filter test) = none ↔ ∀ i, ¬test i := by
  simp [deepest_eq_none_iff]

end Filter

end LoopPragma.Nesting
