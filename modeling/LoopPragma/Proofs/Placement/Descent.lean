import LoopPragma.Placement.LoopWalk
import LoopPragma.Placement.RegionWalk
import LoopPragma.Proofs.Nesting.Descent

namespace LoopPragma.Job

open Nesting

variable {σ : Type} (j : Job σ)

-- What any visit leaves behind, faults included, is what the recursive descent leaves behind. No
-- region is visited twice, and a region below the root is visited if and only if the visits of all
-- regions between, the root among them, said to go on.
theorem walk_regions_eq_descend (root : j.function.RegionIx) :
    (∀ visit : j.function.RegionIx → Place σ Bool,
      j.function.regions.nesting.walk visit [root] =
        j.function.regions.nesting.descend visit root ∧
      ∀ s, ∃ stops,
        j.function.regions.nesting.walk (noting visit) [root] (s, []) =
          withNotes stops (j.function.regions.nesting.walk visit [root] s) ∧
        (Itinerary.nodes stops).Nodup ∧
        (∀ r ∈ Itinerary.nodes stops, root ∈ j.function.regions.nesting.ancestors r) ∧
        ∀ t, j.function.regions.nesting.walk visit [root] s = .ok ⟨⟩ t →
          ∀ r, root ∈ j.function.regions.nesting.ancestors r →
            (r ∈ Itinerary.nodes stops ↔
              ∀ a ∈ j.function.regions.nesting.ancestors r, a ≠ r →
                root ∈ j.function.regions.nesting.ancestors a → (a, some true) ∈ stops)) ∧
    j.markLoops root = j.function.regions.nesting.descend j.visitLoopOf root ∧
    j.offloadRegions root = j.function.regions.nesting.descend j.visitRegion root := by
  refine ⟨fun visit => ⟨walk_singleton _ visit root, fun s => ?_⟩,
    walk_singleton _ _ root, walk_singleton _ _ root⟩
  obtain ⟨stops, hi, hrun, hc⟩ := walk_noting j.function.regions.nesting visit [root] s []
  have hapart : [root].Pairwise (Apart (N := j.function.regions.nesting)) :=
    List.pairwise_singleton _ _
  refine ⟨stops, by simpa using hrun, hi.nodup_nodes hapart, ?_, ?_⟩
  · intro r hr
    obtain ⟨p, hp, hpr⟩ := hi.exists_pending hr
    obtain rfl := List.mem_singleton.mp hp
    exact hpr
  · intro t ht r hroot
    have hmem : root ∈ [root] := List.mem_singleton_self root
    constructor
    · intro hr a ha hne hra
      exact hi.goOn_of_mem hapart hmem hr ha hne hra
    · intro hall
      exact hi.mem_of_goOn hapart (hc t ht) hmem hroot hall

end LoopPragma.Job
