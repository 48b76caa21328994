import LoopPragma.Proofs.Nesting.Deepest
import LoopPragma.Scope

namespace LoopPragma

-- The blocks of a loop are among those of its parent, and loops that share a block lie on one path.
structure LoopNesting.IsProper {numBlocks : Nat} (L : LoopNesting numBlocks) : Prop where
  within_parent : ∀ lp p, L.nesting.parent lp = some p →
    ∀ b ∈ (L.info lp).blocks, b ∈ (L.info p).blocks
  comparable : ∀ lp lp' b, b ∈ (L.info lp).blocks → b ∈ (L.info lp').blocks →
    lp ∈ L.nesting.ancestors lp' ∨ lp' ∈ L.nesting.ancestors lp

namespace LoopNesting

variable {numBlocks : Nat} {L : LoopNesting numBlocks} {b : Fin numBlocks} {lp a : Fin L.size}

instance (L : LoopNesting numBlocks) : Decidable L.IsProper :=
  decidable_of_iff
    ((∀ lp p, L.nesting.parent lp = some p →
        ∀ b, b ∈ (L.info lp).blocks → b ∈ (L.info p).blocks) ∧
      ∀ lp lp' b, b ∈ (L.info lp).blocks → b ∈ (L.info lp').blocks →
        lp ∈ L.nesting.ancestors lp' ∨ lp' ∈ L.nesting.ancestors lp)
    ⟨fun h => ⟨h.1, h.2⟩, fun h => ⟨h.within_parent, h.comparable⟩⟩

theorem mem_holders_iff : lp ∈ L.holders b ↔ b ∈ (L.info lp).blocks := by simp [holders]

theorem mem_blocks_of_owner (h : L.owner b = some lp) : b ∈ (L.info lp).blocks := by
  rw [owner_eq] at h
  exact mem_holders_iff.mp (Nesting.isDeepest_of_deepest h).mem

namespace IsProper

theorem mem_blocks_of_mem_ancestors (h : L.IsProper) (ha : a ∈ L.nesting.ancestors lp)
    (hb : b ∈ (L.info lp).blocks) : b ∈ (L.info a).blocks := by
  induction lp using Nesting.ancestors.induct (N := L.nesting) with
  | case1 lp ih =>
      rcases Nesting.mem_ancestors_iff.mp ha with rfl | ⟨p, hp, hap⟩
      · exact hb
      · exact ih p hp hap (h.within_parent lp p hp b hb)

theorem exists_owner (h : L.IsProper) (hb : b ∈ (L.info lp).blocks) :
    ∃ inner, L.owner b = some inner ∧ lp ∈ L.nesting.ancestors inner := by
  have hlp : lp ∈ L.holders b := mem_holders_iff.mpr hb
  obtain ⟨inner, hinner, hdeepest⟩ := L.nesting.exists_deepest (List.ne_nil_of_mem hlp)
  refine ⟨inner, L.owner_eq b ▸ hinner, hdeepest.mem_ancestors hlp ?_⟩
  exact h.comparable inner lp b (mem_holders_iff.mp hdeepest.mem) hb

end IsProper

end LoopNesting

namespace Function

variable {f : Function} {r : f.RegionIx} {lp : f.LoopIx}

theorem isInside_iff : f.isInside lp r ↔ ∀ b ∈ f.loopBlocks lp, b ∈ f.regionBlocks r := by
  simp [isInside, BlockList.mem_def]

theorem isAround_iff : f.isAround lp r ↔ ∀ b ∈ f.regionBlocks r, b ∈ f.loopBlocks lp := by
  simp [isAround, BlockList.mem_def]

-- The nesting test looks only at innermost loops around blocks and at what lies above these.
theorem mem_upward_touchingLoops_iff (h : f.loops.IsProper) :
    lp ∈ f.loops.nesting.upward (f.touchingLoops r) ↔
      ∃ b ∈ f.regionBlocks r, b ∈ f.loopBlocks lp := by
  rw [Nesting.mem_upward]
  constructor
  · rintro ⟨inner, htouching, habove⟩
    obtain ⟨b, hb, hinner⟩ := mem_touchingLoops_iff.mp htouching
    exact ⟨b, hb, h.mem_blocks_of_mem_ancestors habove (LoopNesting.mem_blocks_of_owner hinner)⟩
  · rintro ⟨b, hb, hlp⟩
    obtain ⟨inner, hinner, habove⟩ := h.exists_owner hlp
    exact ⟨inner, mem_touchingLoops_iff.mpr ⟨b, hb, hinner⟩, habove⟩

-- Where loops are properly nested, the nesting test says of all loops together that none of them is
-- cut by the border of the region.
theorem nestsCleanly_iff (h : f.loops.IsProper) (r : f.RegionIx) :
    f.nestsCleanly r = true ↔ ∀ lp : f.LoopIx,
      (∀ b ∈ f.loopBlocks lp, b ∉ f.regionBlocks r) ∨
      (∀ b ∈ f.loopBlocks lp, b ∈ f.regionBlocks r) ∨
      ∀ b ∈ f.regionBlocks r, b ∈ f.loopBlocks lp := by
  rw [nestsCleanly, List.all_eq_true]
  refine forall_congr' fun lp => ?_
  have hdisjoint : (∀ b ∈ f.loopBlocks lp, b ∉ f.regionBlocks r) ↔
      ¬∃ b ∈ f.regionBlocks r, b ∈ f.loopBlocks lp :=
    ⟨fun h ⟨b, hb, hlp⟩ => h b hlp hb, fun h b hlp hb => h ⟨b, hb, hlp⟩⟩
  rw [mem_upward_touchingLoops_iff h, Bool.or_eq_true_iff, isInside_iff, isAround_iff, hdisjoint]
  exact imp_iff_not_or

-- A loop within a loop. One region is the inner loop with the end of the outer one, another one
-- ends in the middle of the outer loop.
def nestedLoopsDraft : FunctionDraft where
  name := "f"
  blocks := [{ id := ⟨0⟩ }, { id := ⟨1⟩ }, { id := ⟨2⟩ }, { id := ⟨3⟩ }]
  loops := [{ id := ⟨0⟩, header := ⟨1⟩, blocks := [⟨1⟩, ⟨2⟩, ⟨3⟩] },
    { id := ⟨1⟩, header := ⟨2⟩, blocks := [⟨2⟩], parent := some ⟨0⟩ }]
  regions := [{ id := ⟨0⟩, blocks := [⟨0⟩, ⟨1⟩, ⟨2⟩, ⟨3⟩] },
    { id := ⟨1⟩, parent := some ⟨0⟩, blocks := [⟨2⟩, ⟨3⟩] },
    { id := ⟨2⟩, parent := some ⟨0⟩, blocks := [⟨0⟩, ⟨1⟩, ⟨2⟩] }]

def nestedLoops : Function := (ofDraft nestedLoopsDraft).toOption.get (by decide +kernel)

theorem nestedLoops_nestsCleanly :
    let tail : nestedLoops.RegionIx := ⟨1, by decide +kernel⟩
    let cut : nestedLoops.RegionIx := ⟨2, by decide +kernel⟩
    nestedLoops.loops.IsProper ∧ nestedLoops.nestsCleanly tail = true ∧
      ∃ lp, (∃ b ∈ nestedLoops.loopBlocks lp, b ∈ nestedLoops.regionBlocks cut) ∧
        (∃ b ∈ nestedLoops.loopBlocks lp, b ∉ nestedLoops.regionBlocks cut) ∧
        ∃ b ∈ nestedLoops.regionBlocks cut, b ∉ nestedLoops.loopBlocks lp := by
  intro tail cut
  have hproper : nestedLoops.loops.IsProper := by decide +kernel
  refine ⟨hproper, (nestsCleanly_iff hproper tail).mpr (by decide +kernel), ?_⟩
  have hcut : ¬nestedLoops.nestsCleanly cut = true := by decide +kernel
  rw [nestsCleanly_iff hproper cut] at hcut
  simpa only [not_forall, not_or, not_not, exists_prop] using hcut

end Function

end LoopPragma
