import LoopPragma.Model.Function
import LoopPragma.Proofs.Nesting.Deepest

namespace LoopPragma

namespace RegionNesting

variable {numBlocks : Nat} (R : RegionNesting numBlocks)

theorem attached_of_owner {b : Fin numBlocks} {r : Fin R.size} (h : R.owner b = some r) :
    (R.info r).detached = false := by
  rw [R.owner_eq] at h
  have hmem := (Nesting.isDeepest_of_deepest h).mem
  rw [holders, List.mem_filter] at hmem
  simpa using (Bool.and_eq_true_iff.mp hmem.2).1

theorem detached_of_mem_ancestors {a r : Fin R.size} (h : a ∈ R.nesting.ancestors r) :
    (R.info a).detached = (R.info r).detached := by
  induction r using Nesting.ancestors.induct (N := R.nesting) with
  | case1 r ih =>
      rcases Nesting.mem_ancestors_iff.mp h with rfl | ⟨p, hp, hap⟩
      · rfl
      · exact (ih p hp hap).trans (R.detached_parent hp).symm

theorem attached_top : (R.info R.top).detached = false := ((R.attached_root_iff R.top).mpr rfl).2

theorem root_eq_top {r : Fin R.size} (h : (R.info r).detached = false) :
    R.nesting.root r = R.top :=
  (R.attached_root_iff _).mp ⟨R.nesting.parent_root r,
    (R.detached_of_mem_ancestors (R.nesting.root_mem_ancestors r)).trans h⟩

theorem top_mem_ancestors {r : Fin R.size} (h : (R.info r).detached = false) :
    R.top ∈ R.nesting.ancestors r := by
  rw [← R.root_eq_top h]
  exact R.nesting.root_mem_ancestors r

end RegionNesting

namespace Function

variable {f : Function}

theorem attached_of_innermostRegion {b : f.BlockIx} {r : f.RegionIx}
    (h : f.innermostRegion b = some r) : f.isDetached r = false :=
  f.regions.attached_of_owner h

theorem attached_of_mem_children {r c : f.RegionIx} (h : f.isDetached r = false)
    (hc : c ∈ f.regions.nesting.children r) : f.isDetached c = false := by
  have hparent := f.regions.nesting.mem_children.mp hc
  exact (f.regions.detached_parent hparent).trans h

-- The outermost region around any block is the top, so a walk through a function begins there.
theorem startRegion_eq_top (f : Function) : f.startRegion = f.regions.top := by
  rw [startRegion]
  cases hstart : f.allBlocks.head?.bind f.regions.outermost with
  | none => rfl
  | some r =>
      obtain ⟨b, -, houter⟩ := Option.bind_eq_some_iff.mp hstart
      obtain ⟨owner, howner, hroot⟩ := Option.map_eq_some_iff.mp houter
      rw [Option.getD_some, ← hroot]
      exact f.regions.root_eq_top (f.regions.attached_of_owner howner)

theorem attached_startRegion (f : Function) : f.isDetached f.startRegion = false := by
  rw [startRegion_eq_top]
  exact f.regions.attached_top

end Function

end LoopPragma
