import LoopPragma.Proofs.Nesting.Nests

namespace LoopPragma.Nesting

variable {n : Nat}

structure IsTopmost (N : Nesting n) (test : Fin n → Bool) (i top : Fin n) : Prop where
  above : top ∈ N.ancestors i
  passes : test top
  highest : ∀ a ∈ N.ancestors i, test a → top ∈ N.ancestors a

structure IsHead (N : Nesting n) (test : Fin n → Bool) (top : Fin n) : Prop where
  passes : test top
  alone : ∀ a ∈ N.ancestors top, test a → a = top

variable {N : Nesting n} {test : Fin n → Bool} {i top : Fin n}

theorem isTopmost_iff : N.IsTopmost test i top ↔ top ∈ N.ancestors i ∧ N.IsHead test top := by
  constructor
  · intro h
    refine ⟨h.above, h.passes, fun a ha htest => ?_⟩
    exact ancestors_antisymm ha (h.highest a (ancestors_trans h.above ha) htest)
  · rintro ⟨habove, hhead⟩
    refine ⟨habove, hhead.passes, fun a ha htest => ?_⟩
    rcases ancestors_total habove ha with hta | hat
    · exact hta
    · rw [hhead.alone a hat htest]
      exact N.mem_ancestors_self top

namespace IsHead

variable {top' : Fin n}

theorem eq_of_mem_ancestors (h : N.IsHead test top) (h' : N.IsHead test top')
    (hi : top ∈ N.ancestors i) (hi' : top' ∈ N.ancestors i) : top = top' := by
  rcases ancestors_total hi hi' with hle | hle
  · exact h'.alone top hle h.passes
  · exact (h.alone top' hle h'.passes).symm

theorem apart (h : N.IsHead test top) (h' : N.IsHead test top') (hne : top ≠ top') :
    Apart (N := N) top top' :=
  ⟨fun hle => hne (h'.alone top hle h.passes),
    fun hle => hne (h.alone top' hle h'.passes).symm⟩

end IsHead

section Climb

theorem topmost_of_root (hp : N.parent i = none) :
    N.topmost test i = if test i then some i else none := by
  rw [topmost, N.ancestors_of_root hp]
  cases htest : test i <;> simp [htest]

theorem topmost_of_parent {p : Fin n} (hp : N.parent i = some p) :
    N.topmost test i = (N.topmost test p).or (if test i then some i else none) := by
  rw [topmost, N.ancestors_of_parent hp, topmost]
  cases htest : test i with
  | true => rw [List.filter_cons_of_pos htest, List.getLast?_cons, if_pos rfl]; simp
  | false => rw [List.filter_cons_of_neg (by simp [htest])]; simp

theorem topmost_eq_none_iff : N.topmost test i = none ↔ ∀ a ∈ N.ancestors i, test a = false := by
  simp [topmost]

theorem topmost_eq_some_iff : N.topmost test i = some top ↔ N.IsTopmost test i top := by
  rw [isTopmost_iff]
  induction i using ancestors.induct (N := N) with
  | case1 i ih =>
      cases hp : N.parent i with
      | none =>
          rw [topmost_of_root hp, N.ancestors_of_root hp, List.mem_singleton]
          constructor
          · intro h
            obtain ⟨htest, rfl⟩ : test i ∧ i = top := by simpa using h
            refine ⟨rfl, htest, fun a ha _ => ?_⟩
            rwa [N.ancestors_of_root hp, List.mem_singleton] at ha
          · rintro ⟨rfl, hhead⟩
            rw [if_pos hhead.passes]
      | some p =>
          rw [topmost_of_parent hp, Option.or_eq_some_iff, ih p hp, topmost_eq_none_iff,
            N.ancestors_of_parent hp, List.mem_cons]
          constructor
          · rintro (⟨habove, hhead⟩ | ⟨hnone, h⟩)
            · exact ⟨Or.inr habove, hhead⟩
            · obtain ⟨htest, rfl⟩ : test i ∧ i = top := by simpa using h
              refine ⟨Or.inl rfl, htest, fun a ha hpass => ?_⟩
              rw [N.ancestors_of_parent hp, List.mem_cons] at ha
              refine ha.resolve_right fun ha => ?_
              rw [hnone a ha] at hpass
              cases hpass
          · rintro ⟨rfl | habove, hhead⟩
            · refine Or.inr ⟨fun a ha => ?_, if_pos hhead.passes⟩
              by_contra hpass
              have hai := hhead.alone a (ancestors_trans (mem_ancestors_of_parent hp) ha)
                (by simpa using hpass)
              subst a
              exact notMem_ancestors_of_mem_children (N.mem_children.mpr hp) ha
            · exact Or.inl ⟨habove, hhead⟩

end Climb

section Search

variable {covered nodes : List (Fin n)}

-- Whole nests of heads, and nothing else.
def CoversNests (N : Nesting n) (test : Fin n → Bool) (covered : List (Fin n)) : Prop :=
  ∀ i ∈ covered, ∃ top, N.IsHead test top ∧ top ∈ N.ancestors i ∧ N.nest top ⊆ covered

theorem CoversNests.nil : N.CoversNests test [] := nofun

theorem CoversNests.append (h : N.CoversNests test covered) (hhead : N.IsHead test top) :
    N.CoversNests test (N.nest top ++ covered) := by
  intro i hi
  rcases List.mem_append.mp hi with hi | hi
  · exact ⟨top, hhead, mem_nest_iff.mp hi, List.subset_append_left _ _⟩
  · obtain ⟨top', hhead', habove, hsub⟩ := h i hi
    exact ⟨top', hhead', habove, List.subset_append_of_subset_right _ hsub⟩

theorem CoversNests.head_mem (h : N.CoversNests test covered) (hi : i ∈ covered)
    (hhead : N.IsHead test top) (habove : top ∈ N.ancestors i) : top ∈ covered := by
  obtain ⟨top', hhead', habove', hsub⟩ := h i hi
  obtain rfl := hhead.eq_of_mem_ancestors hhead' habove habove'
  exact hsub (mem_nest_iff.mpr (N.mem_ancestors_self top))

-- The search ends at all heads above the given nodes but those that are covered before it begins.
theorem mem_topmosts_iff (h : N.CoversNests test covered) :
    top ∈ N.topmosts test covered nodes ↔
      N.IsHead test top ∧ top ∉ covered ∧ ∃ i ∈ nodes, top ∈ N.ancestors i := by
  induction nodes generalizing covered with
  | nil => simp [topmosts]
  | cons i nodes ih =>
      -- Where the climb from `i` is left out, no head above `i` is missing.
      have hskip (hnone : N.IsHead test top → top ∈ N.ancestors i → top ∈ covered) :
          top ∈ N.topmosts test covered nodes ↔
            N.IsHead test top ∧ top ∉ covered ∧ ∃ k ∈ i :: nodes, top ∈ N.ancestors k := by
        rw [ih h]
        simp only [List.mem_cons, exists_eq_or_imp]
        refine and_congr_right fun hhead => and_congr_right fun hnew => ?_
        exact (or_iff_right fun habove => hnew (hnone hhead habove)).symm
      rw [topmosts]
      split
      · rename_i hi
        exact hskip fun hhead habove => h.head_mem (List.contains_iff_mem.mp hi) hhead habove
      · split
        · rename_i hnone
          refine hskip fun hhead habove => ?_
          have htest := topmost_eq_none_iff.mp hnone top habove
          rw [hhead.passes] at htest
          cases htest
        · rename_i found hfound
          obtain ⟨hbelow, hfoundHead⟩ := isTopmost_iff.mp (topmost_eq_some_iff.mp hfound)
          split
          · rename_i hcovered
            refine hskip fun hhead habove => ?_
            rw [hhead.eq_of_mem_ancestors hfoundHead habove hbelow]
            exact List.contains_iff_mem.mp hcovered
          · rename_i hnew
            rw [List.contains_iff_mem] at hnew
            rw [List.mem_cons, ih (h.append hfoundHead), List.mem_append, not_or, mem_nest_iff]
            simp only [List.mem_cons, exists_eq_or_imp]
            constructor
            · rintro (rfl | ⟨hhead, ⟨-, hn⟩, hnodes⟩)
              · exact ⟨hfoundHead, hnew, Or.inl hbelow⟩
              · exact ⟨hhead, hn, Or.inr hnodes⟩
            · rintro ⟨hhead, hn, habove⟩
              by_cases heq : top = found
              · exact Or.inl heq
              · refine Or.inr ⟨hhead, ⟨(hfoundHead.apart hhead (Ne.symm heq)).1, hn⟩, ?_⟩
                refine habove.resolve_left fun habove => heq ?_
                exact hhead.eq_of_mem_ancestors hfoundHead habove hbelow

theorem nodup_topmosts (h : N.CoversNests test covered) :
    (N.topmosts test covered nodes).Nodup := by
  induction nodes generalizing covered with
  | nil => exact List.nodup_nil
  | cons i nodes ih =>
      rw [topmosts]
      split
      · exact ih h
      · split
        · exact ih h
        · rename_i found hfound
          have hhead := (isTopmost_iff.mp (topmost_eq_some_iff.mp hfound)).2
          split
          · exact ih h
          · refine List.nodup_cons.mpr ⟨fun hmem => ?_, ih (h.append hhead)⟩
            obtain ⟨-, hnew, -⟩ := (mem_topmosts_iff (h.append hhead)).mp hmem
            have hself := mem_nest_iff.mpr (N.mem_ancestors_self found)
            exact hnew (List.mem_append_left _ hself)

theorem pairwise_apart_topmosts (h : N.CoversNests test covered) :
    (N.topmosts test covered nodes).Pairwise (Apart (N := N)) := by
  refine (nodup_topmosts h).imp_of_mem fun ha hb hne => ?_
  exact ((mem_topmosts_iff h).mp ha).1.apart ((mem_topmosts_iff h).mp hb).1 hne

end Search

end LoopPragma.Nesting
