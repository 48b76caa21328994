import LoopPragma.Proofs.Annotations.Growth
import LoopPragma.Proofs.Placement.KernelScope
import LoopPragma.Proofs.Placement.Provenance

namespace LoopPragma

namespace Function

-- Every loop is the innermost one around its own header.
def OwnsHeaders (f : Function) : Prop :=
  ∀ lp : f.LoopIx, f.innermostLoop (f.loops.info lp).header = some lp

instance (f : Function) : Decidable f.OwnsHeaders :=
  inferInstanceAs (Decidable (∀ lp, f.innermostLoop (f.loops.info lp).header = some lp))

def isDivergent (f : Function) (lp : f.LoopIx) : Bool := (f.latchTags lp).any Tags.divergent

variable {f : Function} {settings : Settings} {r : f.RegionIx} {lp : f.LoopIx}

theorem isMarkedParallel_of_isParallel (h : f.isParallel settings lp) :
    f.isMarkedParallel lp := by
  rw [isParallel] at h
  rw [isMarkedParallel]
  cases htags : f.latchTags lp with
  | none => simp [htags] at h
  | some tags =>
      rw [htags, Option.any_some] at h
      exact (Bool.and_eq_true_iff.mp h).1

theorem isDivergent_of_isParallel (h : f.isParallel settings lp)
    (hdiscard : settings.discardDivergent) : f.isDivergent lp = false := by
  rw [isParallel] at h
  rw [isDivergent]
  cases htags : f.latchTags lp with
  | none => rfl
  | some tags =>
      simp only [htags, Option.any_some, hdiscard, Bool.true_and] at h
      simpa using (Bool.and_eq_true_iff.mp h).2

-- The outermost loops that the kernels test finds touch the region with their headers.
theorem mem_touchingLoops_of_mem_kernelLoops (howns : f.OwnsHeaders) (h : lp ∈ f.kernelLoops r) :
    lp ∈ f.touchingLoops r :=
  mem_touchingLoops_iff.mpr ⟨_, (header_mem_of_mem_kernelLoops h).1, howns lp⟩

-- The test on the region looks at loops that are innermost around a block, as each is around its
-- own header.
theorem isParallel_of_mem_kernelLoops (howns : f.OwnsHeaders) (hemit : settings.emitParallel)
    (hsafe : f.isCoalescible settings r) (h : lp ∈ f.kernelLoops r) : f.isParallel settings lp := by
  have hall : (f.touchingLoops r).all (f.isParallel settings) := by
    simpa [hemit] using (Bool.and_eq_true_iff.mp hsafe).2
  exact List.all_eq_true.mp hall lp (mem_touchingLoops_of_mem_kernelLoops howns h)

end Function

variable {σ : Type}

namespace Job

open Place

variable (j : Job σ)

-- The loops that get a kernel directive when a region is committed.
def selectedLoops (r : j.function.RegionIx) : List j.function.LoopIx :=
  if j.function.isCoalescible j.settings r then j.function.kernelLoops r else []

def kernelCounts (lp : j.function.LoopIx) : List Event :=
  .counted .analyzableLoops (.ofNat (j.function.nest lp).length) :: j.stampCounts lp

-- A kernel loop heads its parallel nest, so stamping it never comes out empty, and both directives
-- stand at its line. Restricted kernels are left out when the flag of the computation is set.
structure KernelPlaced (restriction : Option String) (lp : j.function.LoopIx) (line : UInt32)
    (a : Annotations) : Prop where
  heads : (lp, line) ∈ j.parallelNest lp
  counted : ∀ s, ∃ stamped u, j.stampNest lp "" s = .ok stamped u ∧ 0 < stamped
  kernel : j.settings.family = .acc → a.Holds line (match restriction with
    | some name => "#pragma acc kernels if(!RST_" ++ name ++ ")\n"
    | none => "#pragma acc kernels\n")
  parallel : a.Holds line (j.settings.family.loopDirective "")

variable {j} {r : j.function.RegionIx} {lp : j.function.LoopIx} {line : UInt32}
  {restriction : Option String}

theorem isParallel_of_mem_selectedLoops (howns : j.function.OwnsHeaders)
    (hemit : j.settings.emitParallel) (h : lp ∈ j.selectedLoops r) :
    j.function.isParallel j.settings lp := by
  rw [selectedLoops] at h
  split at h
  · rename_i hsafe
    exact Function.isParallel_of_mem_kernelLoops howns hemit hsafe h
  · cases h

theorem mem_parallelNest_self (hparallel : j.function.isParallel j.settings lp)
    (hline : j.function.startLine lp = some line) : (lp, line) ∈ j.parallelNest lp := by
  refine List.mem_filterMap.mpr ⟨lp, ?_, by rw [hline]; rfl⟩
  rw [Nesting.prune, if_pos (by simp [hparallel, hline])]
  exact List.mem_cons_self

theorem parallelNest_of_no_line (hline : j.function.startLine lp = none) :
    j.parallelNest lp = [] := by
  rw [parallelNest, Nesting.prune, if_neg (by simp [hline]), Nesting.prune]
  rfl

theorem puts_writeKernel (hemit : j.settings.emitParallel)
    (hparallel : j.function.isParallel j.settings lp) :
    Puts (j.writeKernel restriction lp) (j.stampCounts lp) (j.kernelMarks restriction lp) := by
  rw [writeKernel, kernelMarks, stampCounts]
  cases hline : j.function.startLine lp with
  | none =>
      rw [parallelNest_of_no_line hline]
      exact .pure _
  | some line =>
      have hmarked := Function.isMarkedParallel_of_isParallel hparallel
      have hstamp (new : Bool) : Puts
          (do if (← j.stampNest lp "") = 0 && new then count .annotatedLoops 1)
          (j.stampCounts lp) (j.nestMarks lp "") := by
        intro s
        have hpos : (j.parallelNest lp).length ≠ 0 := by
          have := List.length_pos_of_mem (mem_parallelNest_self hparallel hline)
          omega
        refine ⟨(), ?_⟩
        rw [bind_of_ok (stampNest_eq lp "" s), decide_eq_false hpos]
        rfl
      simp only [hemit, hmarked, if_true]
      cases j.settings.family.kernelDirective? restriction with
      | none => exact .bind (.pure false) hstamp
      | some directive => exact .bind (puts_annotateNew line directive) hstamp

theorem puts_writeKernels (howns : j.function.OwnsHeaders) (hemit : j.settings.emitParallel)
    (r : j.function.RegionIx) (restriction : Option String) :
    Puts (j.writeKernels r restriction) ((j.selectedLoops r).flatMap j.kernelCounts)
      ((j.selectedLoops r).flatMap (j.kernelMarks restriction)) := by
  have hselected (lp : j.function.LoopIx) (hlp : lp ∈ j.selectedLoops r) : Puts
      (do j.countNest .analyzableLoops lp; j.writeKernel restriction lp)
      (j.kernelCounts lp) (j.kernelMarks restriction lp) :=
    .bind (puts_count _ _) fun _ =>
      puts_writeKernel hemit (isParallel_of_mem_selectedLoops howns hemit hlp)
  have hwrite : j.writeKernels r restriction = (j.selectedLoops r).forM
      (fun lp => do j.countNest .analyzableLoops lp; j.writeKernel restriction lp) := by
    rw [writeKernels, selectedLoops]
    split <;> rfl
  rw [hwrite]
  exact .forM hselected

theorem kernelPlaced_of_isParallel (hemit : j.settings.emitParallel)
    (hparallel : j.function.isParallel j.settings lp)
    (hline : j.function.startLine lp = some line) (a : Annotations)
    {marks : List (UInt32 × String)} (hmarks : j.kernelMarks restriction lp ⊆ marks) :
    j.KernelPlaced restriction lp line (a.addAll marks) := by
  have hheads := mem_parallelNest_self hparallel hline
  have hkernel : j.kernelMarks restriction lp =
      (j.settings.family.kernelDirective? restriction).toList.map (line, ·) ++
        j.nestMarks lp "" := by
    simp [kernelMarks, hline, hemit, Function.isMarkedParallel_of_isParallel hparallel]
  rw [hkernel] at hmarks
  refine ⟨hheads, fun s => ?_, fun hacc => ?_, ?_⟩
  · exact ⟨_, _, stampNest_eq lp "" s, List.length_pos_of_mem hheads⟩
  · have hdirective := Family.kernelDirective?_acc restriction
    rw [← hacc] at hdirective
    apply Annotations.holds_addAll a ?_ (endsLine_kernelDirective hdirective)
    apply hmarks
    simp [hdirective]
  · apply Annotations.holds_addAll a ?_ (endsLine_loopDirective _ _)
    apply hmarks
    exact List.mem_append_right _ (List.mem_map_of_mem hheads)

-- Every loop that is selected in a committed region is parallel, and not divergent where divergent
-- loops are left alone. All directives are those of selected loops, and the only events are the
-- counts of their nests and of the stamped loops. A selected loop with a line has both directives.
theorem writeKernels_parallel (j : Job σ) (howns : j.function.OwnsHeaders)
    (hemit : j.settings.emitParallel) (r : j.function.RegionIx) (restriction : Option String)
    (s : Progress σ) :
    let after := s.put ((j.selectedLoops r).flatMap j.kernelCounts)
      ((j.selectedLoops r).flatMap (j.kernelMarks restriction))
    (∀ lp ∈ j.selectedLoops r, j.function.isParallel j.settings lp ∧
      (j.settings.discardDivergent → j.function.isDivergent lp = false)) ∧
      j.writeKernels r restriction s = .ok ⟨⟩ after ∧
      ∀ lp ∈ j.selectedLoops r, ∀ line, j.function.startLine lp = some line →
        j.KernelPlaced restriction lp line after.annotations := by
  intro after
  refine ⟨fun lp hlp => ?_, ?_, fun lp hlp line hline => ?_⟩
  · have hparallel := isParallel_of_mem_selectedLoops howns hemit hlp
    exact ⟨hparallel, Function.isDivergent_of_isParallel hparallel⟩
  · obtain ⟨_, hrun⟩ := puts_writeKernels howns hemit r restriction s
    exact hrun
  · have hparallel := isParallel_of_mem_selectedLoops howns hemit hlp
    refine kernelPlaced_of_isParallel hemit hparallel hline s.annotations fun mark hmark => ?_
    exact List.mem_flatMap.mpr ⟨lp, hlp, hmark⟩

end Job

open FactTable

-- A loop within another one, both parallel, and a divergent loop in a region of its own.
def dividedLoopsDraft : FunctionDraft where
  name := "f"
  blocks := [{ id := ⟨0⟩, lines := [4] }, { id := ⟨1⟩, lines := [5] }, { id := ⟨2⟩, lines := [6] },
    { id := ⟨3⟩, lines := [7], tags := { parallel := true } },
    { id := ⟨4⟩, lines := [8], tags := { parallel := true } },
    { id := ⟨5⟩, lines := [9], tags := { parallel := true, divergent := true } }]
  loops := [{ id := ⟨0⟩, header := ⟨1⟩, latch := some ⟨4⟩, blocks := [⟨1⟩, ⟨2⟩, ⟨3⟩, ⟨4⟩],
              startLine := some 5 },
    { id := ⟨1⟩, header := ⟨2⟩, latch := some ⟨3⟩, blocks := [⟨2⟩, ⟨3⟩], parent := some ⟨0⟩,
      startLine := some 6 },
    { id := ⟨2⟩, header := ⟨5⟩, latch := some ⟨5⟩, blocks := [⟨5⟩], startLine := some 9 }]
  regions := [{ id := ⟨0⟩, blocks := [⟨0⟩, ⟨1⟩, ⟨2⟩, ⟨3⟩, ⟨4⟩] },
    { id := ⟨1⟩, parent := some ⟨0⟩, entering := some ⟨4⟩, blocks := [⟨5⟩] }]

def dividedLoops : Function := (Function.ofDraft dividedLoopsDraft).toOption.get (by decide +kernel)

-- The outer loop is selected and stamped together with the inner one; the divergent loop is not
-- selected, though it is the kernel loop of its region.
theorem dividedLoops_kernels :
    let j := job { emitParallel := true, discardDivergent := true, coalesce := true }
      ⟨[dividedLoops], by decide⟩ dividedLoops
    let top := dividedLoops.regions.top
    let below : dividedLoops.RegionIx := ⟨1, by decide +kernel⟩
    let outer : dividedLoops.LoopIx := ⟨0, by decide +kernel⟩
    dividedLoops.OwnsHeaders ∧ j.selectedLoops top = [outer] ∧ j.selectedLoops below = [] ∧
      dividedLoops.kernelLoops below ≠ [] ∧
      dividedLoops.isParallel j.settings outer ∧ dividedLoops.isDivergent outer = false ∧
      j.kernelCounts outer = [.counted .analyzableLoops 2, .counted .annotatedLoops 1,
        .counted .annotatedLoops 1] ∧
      ∀ s : Progress FactTable,
        let after := s.put (j.kernelCounts outer) (j.kernelMarks (some "AI1") outer)
        j.writeKernels top (some "AI1") s = .ok ⟨⟩ after ∧
          j.KernelPlaced (some "AI1") outer 5 after.annotations := by
  intro j top below outer
  have howns : dividedLoops.OwnsHeaders := by decide +kernel
  have hselected : j.selectedLoops top = [outer] := by decide +kernel
  have hrun (s : Progress FactTable) := Job.writeKernels_parallel j howns rfl top (some "AI1") s
  simp only [hselected, List.flatMap_singleton] at hrun
  have hselect := (hrun { state := {} }).1 outer (List.mem_singleton_self outer)
  refine ⟨howns, hselected, by decide +kernel, by decide +kernel, hselect.1, hselect.2 rfl,
    by decide +kernel, fun s => ⟨(hrun s).2.1, ?_⟩⟩
  exact (hrun s).2.2 outer (List.mem_singleton_self outer) 5 (by decide +kernel)

end LoopPragma
