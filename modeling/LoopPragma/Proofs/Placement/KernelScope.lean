import LoopPragma.Proofs.Placement.Gates
import LoopPragma.Proofs.Placement.KernelSearch

namespace LoopPragma

namespace Function

variable {f : Function} {r : f.RegionIx} {lp : f.LoopIx}

-- A region that is a proper part of a loop and holds its header.
def opensLoop (f : Function) (r : f.RegionIx) (lp : f.LoopIx) : Bool :=
  (f.loops.info lp).header ∈ f.regionBlocks r && f.isAround lp r && !f.isInside lp r

-- The nesting test alone leaves one way for a kernel loop to reach out of its region.
theorem isInside_of_mem_kernelLoops (hclean : f.nestsCleanly r) (h : lp ∈ f.kernelLoops r) :
    f.isInside lp r = !f.opensLoop r lp := by
  obtain ⟨hheader, habove⟩ := header_mem_of_mem_kernelLoops h
  have hnested := List.all_eq_true.mp hclean lp habove
  rw [opensLoop]
  cases hinside : f.isInside lp r with
  | true => simp
  | false =>
      have haround : f.isAround lp r := by simpa [hinside] using hnested
      simp [hheader, haround]

end Function

namespace FactTable

open Place

variable {settings : Settings} {f : Function} {t : FactTable}

theorem Committable.exists_scoped {id : RegionId} (h : Committable settings f t id) :
    ∃ r, f.regionId r = id ∧ (f.nestsCleanly r ∨ ∃ whole : f.RegionIx,
      t.passesGates settings whole ∧ t.reducedForm f (f.regionId whole) = some id) := by
  cases h with
  | @whole r hgates hid =>
      have hnests : t.nestsSafely f r := (Bool.and_eq_true_iff.mp hgates).2
      exact ⟨r, hid, Or.inl (Bool.and_eq_true_iff.mp hnests).2⟩
  | reduced hgates hform hsafe hcomplete =>
      obtain ⟨r, hid⟩ := exists_region_of_isComplete hcomplete
      exact ⟨r, hid, Or.inr ⟨_, hgates, hform⟩⟩

-- The text of a run over regions is what its extractions leave. In each of them the kernel
-- directives go to loops with their header in the region. If the region cuts no loop, such a loop
-- lies within it or reaches out of it in one way only. Where that way is closed, and reduced forms
-- cut no loops either, every loop with a kernel directive lies within the region.
theorem offloadRegions_kernels_scoped (settings : Settings) (p : Program) (f : Function)
    (root : f.RegionIx) (shared : Shared FactTable) :
    let after := ((job settings p f).offloadRegions root).after { toShared := shared }
    ∃ run, after.events.toList = shared.events.toList ++ run ∧
      after.annotations = run.foldl (job settings p f).written ∅ ∧
      (∀ id ∈ committed run, ∃ r, f.regionId r = id ∧
        (f.nestsCleanly r ∨ ∃ whole : f.RegionIx, shared.state.passesGates settings whole ∧
          shared.state.reducedForm f (f.regionId whole) = some id) ∧
        ∀ lp ∈ f.kernelLoops r, (f.loops.info lp).header ∈ f.regionBlocks r ∧
          (f.nestsCleanly r → f.isInside lp r = !f.opensLoop r lp)) ∧
      ((∀ r lp, f.nestsCleanly r → f.opensLoop r lp = false) →
        (∀ whole r : f.RegionIx,
          shared.state.reducedForm f (f.regionId whole) = some (f.regionId r) →
            f.nestsCleanly r) →
        ∀ id ∈ committed run,
          ∃ r, f.regionId r = id ∧ ∀ lp ∈ f.kernelLoops r, f.isInside lp r) := by
  intro after
  obtain ⟨run, hrun, hwritten, hcommittable⟩ := offloadRegions_run settings p f root shared
  refine ⟨run, hrun, hwritten, fun id hid => ?_, fun hopens hforms id hid => ?_⟩
  · obtain ⟨r, hr, hclean⟩ := (hcommittable id hid).exists_scoped
    refine ⟨r, hr, hclean, fun lp hlp => ?_⟩
    have hheader := (Function.header_mem_of_mem_kernelLoops hlp).1
    exact ⟨hheader, fun hclean => Function.isInside_of_mem_kernelLoops hclean hlp⟩
  · obtain ⟨r, rfl, hclean⟩ := (hcommittable id hid).exists_scoped
    have hclean : f.nestsCleanly r := by
      rcases hclean with hclean | ⟨whole, -, hform⟩
      · exact hclean
      · exact hforms whole r hform
    refine ⟨r, rfl, fun lp hlp => ?_⟩
    rw [Function.isInside_of_mem_kernelLoops hclean hlp, hopens r lp hclean]
    rfl

-- A loop of two blocks, a region that is its header alone, and a detached one that ends with it.
def openedLoopDraft : FunctionDraft where
  name := "f"
  blocks := [{ id := ⟨0⟩, lines := [4] }, { id := ⟨1⟩, lines := [5] }, { id := ⟨2⟩, lines := [6] }]
  loops := [{ id := ⟨0⟩, header := ⟨1⟩, latch := some ⟨2⟩, blocks := [⟨1⟩, ⟨2⟩],
              startLine := some 5 }]
  regions := [{ id := ⟨0⟩, blocks := [⟨0⟩, ⟨1⟩, ⟨2⟩] },
    { id := ⟨1⟩, parent := some ⟨0⟩, entering := some ⟨0⟩, blocks := [⟨1⟩] },
    { id := ⟨2⟩, entering := some ⟨0⟩, blocks := [⟨0⟩, ⟨1⟩], detached := true }]

def openedLoop : Function :=
  (Function.ofDraft openedLoopDraft).toOption.get (by decide +kernel)

-- The top is left out, and the header can be extracted.
def headerFacts : FactTable := edit {} "f" fun facts =>
  let comments : Std.ExtTreeMap UInt32 String := {(5, "#pragma acc data copy(a)\n\x7b\n")}
  { facts with
    unsafeScopes := {⟨0⟩}
    regionExtractions := facts.regionExtractions.insert ⟨1⟩ { comments } }

-- The detached region stands in for the top.
def cutFacts : FactTable := edit {} "f" fun facts =>
  let comments : Std.ExtTreeMap UInt32 String := {(5, "#pragma acc data copy(a)\n\x7b\n")}
  { facts with
    incomplete := {⟨0⟩}
    reduced := {(⟨0⟩, ⟨2⟩)}
    regionExtractions := facts.regionExtractions.insert ⟨2⟩ { comments } }

-- Both ways out of a region are taken: the loop gets the directive at its first line, and the block
-- around it is closed at the line of its second block.
theorem openedLoop_reaches_out :
    let run (t : FactTable) := ((job { coalesce := true } ⟨[openedLoop], by decide⟩
      openedLoop).offloadRegions openedLoop.regions.top).after { state := t }
    let text := [(5, "#pragma acc data copy(a)\n\x7b\n#pragma acc kernels\n"), (6, "\x7d\n")]
    let lp : openedLoop.LoopIx := ⟨0, by decide +kernel⟩
    let header : openedLoop.RegionIx := ⟨1, by decide +kernel⟩
    let cut : openedLoop.RegionIx := ⟨2, by decide +kernel⟩
    committed (run headerFacts).events.toList = [openedLoop.regionId header] ∧
      (run headerFacts).annotations.toList = text ∧ openedLoop.opensLoop header lp ∧
    committed (run cutFacts).events.toList = [openedLoop.regionId cut] ∧
      (run cutFacts).annotations.toList = text ∧ openedLoop.nestsCleanly cut = false ∧
    ∀ r ∈ [header, cut], openedLoop.kernelLoops r = [lp] ∧ openedLoop.isInside lp r = false := by
  decide +kernel

end FactTable

end LoopPragma
