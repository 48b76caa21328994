import LoopPragma.Proofs.Model.Attached
import LoopPragma.Proofs.Nesting.Preorder

namespace LoopPragma

namespace RegionNesting

variable {numBlocks : Nat} (R : RegionNesting numBlocks)

def Attaches (b : Fin numBlocks) (r : Fin R.size) : Prop :=
  (R.info r).detached = false ∧ b ∈ (R.info r).blocks

variable {R} {b : Fin numBlocks} {r : Fin R.size}

theorem owner_eq_some_iff : R.owner b = some r ↔ R.nesting.IsInnermost (R.Attaches b) r := by
  have hset : (fun r => (!(R.info r).detached && decide (b ∈ (R.info r).blocks)) = true) =
      R.Attaches b := by
    funext r
    simp [Attaches]
  rw [owner_eq, holders, Nesting.deepest_filter_eq_some_iff, hset]

theorem owner_eq_none_iff : R.owner b = none ↔ ∀ r, ¬R.Attaches b r := by
  rw [owner_eq, holders, Nesting.deepest_filter_eq_none_iff]
  simp [Attaches]

theorem mem_preorder_top_iff :
    r ∈ R.nesting.preorder R.top ↔ (R.info r).detached = false := by
  rw [Nesting.mem_preorder_iff]
  constructor
  · intro h
    rw [← R.detached_of_mem_ancestors h]
    exact R.attached_top
  · exact R.top_mem_ancestors

theorem outermost_eq_none_iff : R.outermost b = none ↔ ∀ r, ¬R.Attaches b r := by
  rw [outermost, Option.map_eq_none_iff, owner_eq_none_iff]

theorem outermost_eq_top_iff : R.outermost b = some R.top ↔ ∃ r, R.Attaches b r := by
  rw [outermost, Option.map_eq_some_iff]
  constructor
  · rintro ⟨r, hr, -⟩
    exact ⟨r, (owner_eq_some_iff.mp hr).mem⟩
  · rintro ⟨r, hr⟩
    cases howner : R.owner b with
    | none => exact absurd hr (owner_eq_none_iff.mp howner r)
    | some inner => exact ⟨inner, rfl, R.root_eq_top (R.attached_of_owner howner)⟩

end RegionNesting

namespace Function

-- The attached regions are what is found below the top, each once. Of those that list a block the
-- deepest one owns it, the last one if there are several, and the way up from it ends at the top.
-- So the walk of a function begins at the top, wherever its first block is listed.
theorem attached_regions_form_tree (f : Function) :
    (f.regions.nesting.preorder f.regions.top).Nodup ∧
    (∀ r, r ∈ f.regions.nesting.preorder f.regions.top ↔ f.isDetached r = false) ∧
    (∀ b r, f.innermostRegion b = some r ↔
      f.regions.nesting.IsInnermost (f.regions.Attaches b) r) ∧
    (∀ b, f.innermostRegion b = none ↔ ∀ r, ¬f.regions.Attaches b r) ∧
    (∀ b, f.regions.outermost b = some f.regions.top ↔ ∃ r, f.regions.Attaches b r) ∧
    (∀ b, f.regions.outermost b = none ↔ ∀ r, ¬f.regions.Attaches b r) ∧
    f.startRegion = f.regions.top :=
  ⟨Nesting.nodup_preorder _, fun _ => RegionNesting.mem_preorder_top_iff,
    fun _ _ => RegionNesting.owner_eq_some_iff, fun _ => RegionNesting.owner_eq_none_iff,
    fun _ => RegionNesting.outermost_eq_top_iff, fun _ => RegionNesting.outermost_eq_none_iff,
    f.startRegion_eq_top⟩

end Function

end LoopPragma
