import LoopPragma.Nesting.Walk

namespace LoopPragma.Nesting

variable {n : Nat} {N : Nesting n}

theorem mem_ancestors_iff {a i : Fin n} :
    a ∈ N.ancestors i ↔ a = i ∨ ∃ p, N.parent i = some p ∧ a ∈ N.ancestors p := by
  cases hp : N.parent i with
  | none => simp [N.ancestors_of_root hp]
  | some p => simp [N.ancestors_of_parent hp]

theorem mem_ancestors_of_parent {i p : Fin n} (h : N.parent i = some p) : p ∈ N.ancestors i :=
  mem_ancestors_iff.mpr (Or.inr ⟨p, h, N.mem_ancestors_self p⟩)

theorem depth_lt_of_mem_ancestors {a i : Fin n} (h : a ∈ N.ancestors i) (hne : a ≠ i) :
    N.depth a < N.depth i := by
  induction i using ancestors.induct (N := N) with
  | case1 i ih =>
      rcases mem_ancestors_iff.mp h with rfl | ⟨p, hp, ha⟩
      · exact absurd rfl hne
      · have hd := N.depth_of_parent hp
        by_cases hap : a = p
        · subst a
          omega
        · have := ih p hp ha hap
          omega

theorem depth_le_of_mem_ancestors {a i : Fin n} (h : a ∈ N.ancestors i) :
    N.depth a ≤ N.depth i := by
  by_cases hne : a = i
  · subst a
    exact Nat.le_refl _
  · exact Nat.le_of_lt (depth_lt_of_mem_ancestors h hne)

theorem ancestors_antisymm {a b : Fin n} (hab : a ∈ N.ancestors b) (hba : b ∈ N.ancestors a) :
    a = b := by
  refine Decidable.byContradiction fun hne => ?_
  have := depth_lt_of_mem_ancestors hab hne
  have := depth_lt_of_mem_ancestors hba (Ne.symm hne)
  omega

theorem ancestors_total {a b i : Fin n} (ha : a ∈ N.ancestors i) (hb : b ∈ N.ancestors i) :
    a ∈ N.ancestors b ∨ b ∈ N.ancestors a := by
  induction i using ancestors.induct (N := N) with
  | case1 i ih =>
      rcases mem_ancestors_iff.mp ha with rfl | ⟨p, hp, hap⟩
      · exact Or.inr hb
      · rcases mem_ancestors_iff.mp hb with rfl | ⟨q, hq, hbq⟩
        · exact Or.inl ha
        · obtain rfl : p = q := Option.some.inj (hp.symm.trans hq)
          exact ih p hp hap hbq

theorem exists_child_of_mem_ancestors {a i : Fin n} (h : a ∈ N.ancestors i) (hne : a ≠ i) :
    ∃ c ∈ N.children a, c ∈ N.ancestors i := by
  induction i using ancestors.induct (N := N) with
  | case1 i ih =>
      rcases mem_ancestors_iff.mp h with rfl | ⟨p, hp, hap⟩
      · exact absurd rfl hne
      · by_cases hap' : a = p
        · subst a
          exact ⟨i, N.mem_children.mpr hp, N.mem_ancestors_self i⟩
        · obtain ⟨c, hc, hcp⟩ := ih p hp hap hap'
          exact ⟨c, hc, ancestors_trans (mem_ancestors_of_parent hp) hcp⟩

section Root

theorem root_of_root {i : Fin n} (h : N.parent i = none) : N.root i = i := by
  rw [root]
  split
  · rfl
  · simp_all

theorem root_of_parent {i p : Fin n} (h : N.parent i = some p) : N.root i = N.root p := by
  rw [root]
  split <;> simp_all

theorem parent_root (N : Nesting n) (i : Fin n) : N.parent (N.root i) = none := by
  induction i using root.induct (N := N) with
  | case1 i h =>
      rw [root_of_root h]
      exact h
  | case2 i p hp ih =>
      rw [root_of_parent hp]
      exact ih

theorem root_mem_ancestors (N : Nesting n) (i : Fin n) : N.root i ∈ N.ancestors i := by
  induction i using root.induct (N := N) with
  | case1 i h =>
      rw [root_of_root h]
      exact N.mem_ancestors_self i
  | case2 i p hp ih =>
      rw [root_of_parent hp]
      exact ancestors_trans (mem_ancestors_of_parent hp) ih

end Root

theorem mem_ancestors_of_mem_children {c i : Fin n} (h : c ∈ N.children i) : i ∈ N.ancestors c :=
  mem_ancestors_of_parent (N.mem_children.mp h)

theorem notMem_ancestors_of_mem_children {c i : Fin n} (h : c ∈ N.children i) :
    c ∉ N.ancestors i := by
  intro hc
  have := depth_le_of_mem_ancestors hc
  have := N.depth_of_parent (N.mem_children.mp h)
  omega

theorem nodup_children (i : Fin n) : (N.children i).Nodup := (List.nodup_finRange n).filter _

-- Two nodes on different branches.
def Apart (a b : Fin n) : Prop := a ∉ N.ancestors b ∧ b ∉ N.ancestors a

theorem Apart.symm {a b : Fin n} (h : Apart (N := N) a b) : Apart (N := N) b a := And.symm h

theorem Apart.not_both {a b i : Fin n} (h : Apart (N := N) a b) (ha : a ∈ N.ancestors i) :
    b ∉ N.ancestors i := by
  intro hb
  rcases ancestors_total ha hb with hab | hba
  · exact h.1 hab
  · exact h.2 hba

theorem Apart.of_mem_ancestors {a b i : Fin n} (h : Apart (N := N) a b) (hi : a ∈ N.ancestors i) :
    Apart (N := N) i b := by
  constructor
  · intro hib
    exact h.1 (ancestors_trans hib hi)
  · exact h.not_both hi

theorem apart_children {c d i : Fin n} (hc : c ∈ N.children i) (hd : d ∈ N.children i)
    (hne : c ≠ d) : Apart (N := N) c d := by
  have hdc := N.depth_of_parent (N.mem_children.mp hc)
  have hdd := N.depth_of_parent (N.mem_children.mp hd)
  constructor
  · intro h
    have := depth_lt_of_mem_ancestors h hne
    omega
  · intro h
    have := depth_lt_of_mem_ancestors h (Ne.symm hne)
    omega

end LoopPragma.Nesting
