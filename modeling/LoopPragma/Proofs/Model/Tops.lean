import LoopPragma.Proofs.Model.Validation

namespace LoopPragma

instance : DecidablePred RegionDraft.IsTop := fun d =>
  inferInstanceAs (Decidable (d.parent = none ∧ d.detached = false))

def FunctionDraft.tops (d : FunctionDraft) : Nat := d.regions.countP fun r => r.IsTop

variable {d : FunctionDraft} {numBlocks : Nat}

namespace RegionNesting

theorem length_tops {drafts : List RegionDraft}
    {nodes : Vector (RegionInfo numBlocks × Option (Fin drafts.length)) drafts.length}
    (h : collect drafts.length (fun i =>
      RegionInfo.ofDraft numBlocks drafts i (drafts.get i)) = .ok nodes)
    {N : Nesting drafts.length} (hN : Nesting.ofParents (nodes.map Prod.snd) = .ok N) :
    ((List.finRange drafts.length).filter fun r =>
      N.parent r = none && !((nodes.map Prod.fst).get r).detached).length =
      drafts.countP fun r => r.IsTop := by
  conv_rhs => rw [← List.map_get_finRange drafts, List.countP_map]
  rw [← List.countP_eq_length_filter]
  refine List.countP_congr fun r hr => ?_
  have htop := isTop_iff h hN r
  rw [List.mem_filter] at htop
  simpa [hr] using htop.symm

theorem tops_of_ofDrafts_eq_ok {R : RegionNesting numBlocks}
    (h : ofDrafts numBlocks d.regions = .ok R) : d.tops = 1 := by
  unfold ofDrafts at h
  split at h
  · cases h
  · rename_i nodes hnodes
    split at h
    · cases h
    · rename_i N hN
      have hlength := length_tops hnodes hN
      dsimp only at h
      split at h
      · cases h
      · rename_i top hfilter
        rw [hfilter] at hlength
        exact hlength.symm
      · cases h

-- The tops are looked at last, and decide alone between the two errors about them.
theorem tops_of_ofDrafts_eq_error {e : Defect} (h : ofDrafts numBlocks d.regions = .error e)
    (he : e.requirement ∈ [.someTop, .oneTop]) :
    d.Meets .knownRegions ∧ d.tops ≠ 1 ∧
      e = if d.tops = 0 then .noTopRegion else .topRegions d.tops := by
  unfold ofDrafts at h
  split at h
  · rename_i hcollect
    cases h
    obtain ⟨i, hi, -⟩ := collect_eq_error hcollect
    rcases RegionInfo.ofDraft_eq_error hi with ⟨-, rfl⟩ | ⟨b, -, -, rfl⟩ | ⟨p, -, -, rfl⟩ <;>
      simp [Defect.requirement] at he
  · rename_i nodes hnodes
    split at h
    · cases h
      simp [Defect.requirement] at he
    · rename_i N hN
      have hlength : _ = d.tops := length_tops hnodes hN
      refine ⟨fun r hr p hp => exists_parent_of_collect hnodes hr hp, ?_⟩
      dsimp only at h
      split at h
      · rename_i hfilter
        cases h
        rw [hfilter] at hlength
        simp [← hlength]
      · cases h
      · rename_i hnil hsingle
        cases h
        rw [hlength]
        have hzero : d.tops ≠ 0 := fun hz => hnil (List.length_eq_zero_iff.mp (hlength.trans hz))
        refine ⟨fun hone => ?_, (if_neg hzero).symm⟩
        obtain ⟨top, htop⟩ := List.length_eq_one_iff.mp (hlength.trans hone)
        exact hsingle top htop

end RegionNesting

theorem LoopNesting.requirement_of_ofDrafts_eq_error {drafts : List LoopDraft} {e : Defect}
    (h : ofDrafts numBlocks drafts = .error e) :
    e.requirement ∈ [.numbered, .knownBlocks, .knownLoops, .acyclicLoops] := by
  unfold ofDrafts at h
  split at h
  · rename_i hcollect
    cases h
    obtain ⟨i, hi, -⟩ := collect_eq_error hcollect
    rcases LoopInfo.ofDraft_eq_error hi with ⟨-, rfl⟩ | ⟨b, -, -, rfl⟩ | ⟨p, -, -, rfl⟩ <;>
      simp [Defect.requirement]
  · split at h
    · cases h
      simp [Defect.requirement]
    · cases h

namespace Function

theorem tops_of_ofDraft_eq_ok {f : Function} (h : ofDraft d = .ok f) :
    d.regions = [] ∨ d.tops = 1 := by
  rw [ofDraft, mapError_eq_ok] at h
  simp only [bind_eq_ok] at h
  obtain ⟨blocks, -, loops, -, h⟩ := h
  split at h
  · exact Or.inl (by assumption)
  · obtain ⟨regions, hregions, -⟩ := bind_eq_ok.mp h
    exact Or.inr (RegionNesting.tops_of_ofDrafts_eq_ok hregions)

theorem tops_of_ofDraft_eq_error {e : ModelError} (h : ofDraft d = .error e)
    (he : e.defect.requirement ∈ [.someTop, .oneTop]) :
    d.regions ≠ [] ∧ d.Meets .knownRegions ∧ d.tops ≠ 1 ∧
      e.defect = if d.tops = 0 then .noTopRegion else .topRegions d.tops := by
  rw [ofDraft, mapError_eq_error] at h
  obtain ⟨defect, h, rfl⟩ := h
  simp only [bind_eq_error] at h
  rcases h with h | ⟨blocks, -, h⟩
  · obtain ⟨i, hi, -⟩ := collect_eq_error h
    obtain ⟨-, rfl⟩ := checkBlock_eq_error hi
    simp [Defect.requirement] at he
  rcases h with h | ⟨loops, -, h⟩
  · have hloops := LoopNesting.requirement_of_ofDrafts_eq_error h
    simp only [List.mem_cons, List.not_mem_nil, or_false] at he hloops
    rcases he with he | he <;> simp [he] at hloops
  split at h
  · rcases bind_eq_error.mp h with h | ⟨regions, -, h⟩ <;> cases h
  · rename_i hne
    rcases bind_eq_error.mp h with h | ⟨regions, -, h⟩
    · exact ⟨hne, RegionNesting.tops_of_ofDrafts_eq_error h he⟩
    · cases h

theorem ofDraft_cases (h : ∀ r ∉ [.knownRegions, .someTop, .oneTop], d.Meets r) :
    (∃ id p, ofDraft d = .error ⟨d.name, .regionParent id p⟩ ∧ ¬d.Meets .knownRegions) ∨
      (ofDraft d = .error ⟨d.name, .noTopRegion⟩ ∧
        d.Meets .knownRegions ∧ d.regions ≠ [] ∧ d.tops = 0) ∨
      (ofDraft d = .error ⟨d.name, .topRegions d.tops⟩ ∧ d.Meets .knownRegions ∧ 2 ≤ d.tops) ∨
      ∃ f, ofDraft d = .ok f ∧ d.Meets .knownRegions ∧ (d.regions = [] ∨ d.tops = 1) := by
  cases hbuilt : ofDraft d with
  | ok f =>
      have hmeets := (ofDraft_eq_ok hbuilt).2
      exact .inr (.inr (.inr ⟨f, rfl, hmeets _, tops_of_ofDraft_eq_ok hbuilt⟩))
  | error e =>
      obtain ⟨function, defect⟩ := e
      obtain ⟨rfl, hnot⟩ : function = d.name ∧ ¬d.Meets defect.requirement :=
        ofDraft_eq_error hbuilt
      by_cases hknown : defect.requirement = .knownRegions
      · cases defect <;> cases hknown
        exact .inl ⟨_, _, rfl, hnot⟩
      · have htops : defect.requirement ∈ [.someTop, .oneTop] := by
          by_contra hother
          exact hnot (h _ (by simpa [hknown] using hother))
        obtain ⟨hne, hmeets, hone, hdefect⟩ := tops_of_ofDraft_eq_error hbuilt htops
        dsimp only at hdefect
        by_cases hzero : d.tops = 0
        · rw [if_pos hzero] at hdefect
          exact .inr (.inl ⟨by rw [hdefect], hmeets, hne, hzero⟩)
        · rw [if_neg hzero] at hdefect
          exact .inr (.inr (.inl ⟨by rw [hdefect], hmeets, by omega⟩))

end Function

end LoopPragma
