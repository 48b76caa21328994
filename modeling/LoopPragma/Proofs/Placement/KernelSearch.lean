import LoopPragma.Proofs.Nesting.Topmost
import LoopPragma.Proofs.Placement.Credit
import LoopPragma.Proofs.Placement.Replay
import LoopPragma.Proofs.Placement.Writing

namespace LoopPragma

namespace Function

variable {f : Function} {r : f.RegionIx} {lp : f.LoopIx}

theorem beginsIn_iff : f.beginsIn r lp ↔ (f.loops.info lp).header ∈ f.regionBlocks r := by
  rw [beginsIn, decide_eq_true_iff]

theorem mem_kernelLoops_iff :
    lp ∈ f.kernelLoops r ↔ ∃ b ∈ f.regionBlocks r, ∃ inner, f.innermostLoop b = some inner ∧
      f.loops.nesting.IsTopmost (f.beginsIn r) inner lp := by
  simp only [kernelLoops, Nesting.mem_topmosts_iff .nil, List.not_mem_nil, not_false_eq_true,
    true_and, mem_touchingLoops_iff, Nesting.isTopmost_iff]
  constructor
  · rintro ⟨hhead, inner, ⟨b, hb, hinner⟩, habove⟩
    exact ⟨b, hb, inner, hinner, habove, hhead⟩
  · rintro ⟨b, hb, inner, hinner, habove, hhead⟩
    exact ⟨hhead, inner, ⟨b, hb, hinner⟩, habove⟩

theorem isHead_of_mem_kernelLoops (h : lp ∈ f.kernelLoops r) :
    f.loops.nesting.IsHead (f.beginsIn r) lp :=
  ((Nesting.mem_topmosts_iff .nil).mp h).1

theorem header_mem_of_mem_kernelLoops (h : lp ∈ f.kernelLoops r) :
    (f.loops.info lp).header ∈ f.regionBlocks r ∧
      lp ∈ f.loops.nesting.upward (f.touchingLoops r) := by
  obtain ⟨hhead, -, inner, hinner, habove⟩ := (Nesting.mem_topmosts_iff .nil).mp h
  exact ⟨beginsIn_iff.mp hhead.passes, Nesting.mem_upward.mpr ⟨inner, hinner, habove⟩⟩

-- A selection of loops that begin in a region: each of them once, no two nests with a loop in
-- common, none below another loop that begins there, and exactly those that some block leads up to.
structure SelectsOutermost (f : Function) (r : f.RegionIx) (selected : List f.LoopIx) : Prop where
  once : selected.Nodup
  disjoint : ∀ lp ∈ selected, ∀ lp' ∈ selected, lp ≠ lp' → List.Disjoint (f.nest lp) (f.nest lp')
  outermost : ∀ lp ∈ selected, ∀ a ∈ f.loops.nesting.ancestors lp, a ≠ lp →
    (f.loops.info a).header ∉ f.regionBlocks r
  complete : ∀ lp, lp ∈ selected ↔ ∃ b ∈ f.regionBlocks r, ∃ inner,
    f.innermostLoop b = some inner ∧ f.loops.nesting.IsTopmost (f.beginsIn r) inner lp

theorem selectsOutermost_kernelLoops (f : Function) (r : f.RegionIx) :
    f.SelectsOutermost r (f.kernelLoops r) where
  once := Nesting.nodup_topmosts .nil
  disjoint lp hlp lp' hlp' hne := by
    have hapart := (isHead_of_mem_kernelLoops hlp).apart (isHead_of_mem_kernelLoops hlp') hne
    intro inner hinner hinner'
    exact hapart.not_both (Nesting.mem_nest_iff.mp hinner) (Nesting.mem_nest_iff.mp hinner')
  outermost lp hlp a ha hne hheader :=
    hne ((isHead_of_mem_kernelLoops hlp).alone a ha (beginsIn_iff.mpr hheader))
  complete _ := mem_kernelLoops_iff

def countBelow (f : Function) (loops : List f.LoopIx) : Nat :=
  (List.finRange f.loops.size).countP fun lp => (f.loops.nesting.ancestors lp).any (· ∈ loops)

theorem sum_length_nest_kernelLoops (f : Function) (r : f.RegionIx) :
    ((f.kernelLoops r).map fun lp => (f.nest lp).length).sum = f.countBelow (f.kernelLoops r) :=
  Nesting.sum_length_nest_eq (Nesting.pairwise_apart_topmosts .nil)

theorem countBelow_lt (f : Function) (loops : List f.LoopIx) :
    f.countBelow loops < UInt64.size := by
  have hle : f.countBelow loops ≤ (List.finRange f.loops.size).length := List.countP_le_length
  rw [List.length_finRange] at hle
  have hsize := f.loops.size_le
  have hword : UInt32.size < UInt64.size := by decide
  omega

end Function

namespace Job

open Counts Place

variable {σ : Type} {j : Job σ} {k : Nat}

theorem ignoresMarking_analyzable :
    IgnoresMarking fun s : Progress σ => total .analyzableLoops s.events.toList = k where
  stamped s amount hs := by
    rw [Array.toList_push, total_append, hs]
    rfl
  annotated _ _ h := h
  registered _ _ h := h

theorem triple_kernel_analyzable (restriction : Option String) (lp : j.function.LoopIx) :
    Triple (fun s => total .analyzableLoops s.events.toList = k)
      (do
        j.countNest .analyzableLoops lp
        j.writeKernel restriction lp)
      (fun _ s => total .analyzableLoops s.events.toList = k + (j.function.nest lp).length)
      fun _ => True := by
  refine Triple.bind (Triple.modify fun s hs => ?_) fun _ =>
    (ignoresMarking_analyzable.writeKernel restriction lp).mono (fun _ h => h) (fun _ _ h => h)
      fun _ _ => trivial
  have hamount : (UInt64.ofNat (j.function.nest lp).length).toNat = (j.function.nest lp).length :=
    UInt64.toNat_ofNat_of_lt' (length_nest_lt lp)
  rw [Array.toList_push, total_append, total_singleton, hs, Event.amount, if_pos rfl, hamount]

theorem triple_kernels_analyzable (restriction : Option String) (loops : List j.function.LoopIx) :
    Triple (fun s => total .analyzableLoops s.events.toList = k)
      (loops.forM fun lp => do
        j.countNest .analyzableLoops lp
        j.writeKernel restriction lp)
      (fun _ s => total .analyzableLoops s.events.toList =
        k + (loops.map fun lp => (j.function.nest lp).length).sum)
      fun _ => True := by
  induction loops generalizing k with
  | nil => exact Triple.pure fun _ hs => hs
  | cons lp loops ih =>
      refine Triple.bind (triple_kernel_analyzable restriction lp) fun _ => ?_
      refine ih.mono (fun _ h => h) (fun _ s hs => ?_) fun _ h => h
      rw [hs, List.map_cons, List.sum_cons, Nat.add_assoc]

theorem total_analyzable_writeKernels {r : j.function.RegionIx} {restriction : Option String}
    {s u : Progress σ} (hsafe : j.function.isCoalescible j.settings r)
    (hrun : j.writeKernels r restriction s = .ok ⟨⟩ u) :
    total .analyzableLoops u.events.toList =
      total .analyzableLoops s.events.toList +
        j.function.countBelow (j.function.kernelLoops r) := by
  have hend := triple_kernels_analyzable restriction (j.function.kernelLoops r) s rfl
  rw [writeKernels, if_pos hsafe] at hrun
  rw [hrun] at hend
  cases hend with
  | ok hend => rw [hend, Function.sum_length_nest_kernelLoops]

-- Where a region may share no data directive, nothing happens. Otherwise the topmost loops that
-- begin in it are selected, from whichever of its blocks they are found. Their directives are
-- written one loop after the other, and the loops in their nests are counted as analyzable.
theorem writeKernels_selects_outermost (j : Job σ) (r : j.function.RegionIx)
    (restriction : Option String) :
    let f := j.function
    let selected := f.kernelLoops r
    (f.isCoalescible j.settings r = false → ∀ s, j.writeKernels r restriction s = .ok ⟨⟩ s) ∧
    (f.isCoalescible j.settings r = true → ∀ s, ∃ u, j.writeKernels r restriction s = .ok ⟨⟩ u ∧
      Wrote (selected.flatMap (j.kernelMarks restriction)) s u ∧
      total .analyzableLoops u.events.toList =
        total .analyzableLoops s.events.toList + f.countBelow selected ∧
      (ofEvents u.events.toList).analyzableLoops =
        saturatingAdd (ofEvents s.events.toList).analyzableLoops
          (.ofNat (f.countBelow selected))) ∧
    f.SelectsOutermost r selected := by
  intro f selected
  refine ⟨fun hrefused s => ?_, fun hsafe s => ?_, f.selectsOutermost_kernelLoops r⟩
  · rw [writeKernels, if_neg (by rw [hrefused]; exact Bool.false_ne_true)]
    rfl
  · obtain ⟨_, u, hrun, hwrote⟩ := marks_writeKernels r restriction s
    rw [regionMarks, if_pos hsafe] at hwrote
    have htotal := total_analyzable_writeKernels hsafe hrun
    exact ⟨u, hrun, hwrote, htotal, get_ofEvents_of_total htotal (f.countBelow_lt selected)⟩

-- A loop with two loops in it, one of them around a third. One region leaves out the header of the
-- outermost loop, and names the blocks of the innermost one first. Another one cannot be entered.
def cutNestDraft : FunctionDraft where
  name := "f"
  blocks := [{ id := ⟨0⟩ }, { id := ⟨1⟩ }, { id := ⟨2⟩ }, { id := ⟨3⟩ }, { id := ⟨4⟩ }]
  loops := [{ id := ⟨0⟩, header := ⟨0⟩, blocks := [⟨0⟩, ⟨1⟩, ⟨2⟩, ⟨3⟩, ⟨4⟩], startLine := some 1 },
    { id := ⟨1⟩, header := ⟨1⟩, blocks := [⟨1⟩, ⟨2⟩], parent := some ⟨0⟩, startLine := some 2 },
    { id := ⟨2⟩, header := ⟨2⟩, blocks := [⟨2⟩], parent := some ⟨1⟩, startLine := some 3 },
    { id := ⟨3⟩, header := ⟨3⟩, blocks := [⟨3⟩], parent := some ⟨0⟩, startLine := some 4 }]
  regions := [{ id := ⟨0⟩, blocks := [⟨0⟩, ⟨1⟩, ⟨2⟩, ⟨3⟩, ⟨4⟩] },
    { id := ⟨1⟩, parent := some ⟨0⟩, entering := some ⟨0⟩, blocks := [⟨2⟩, ⟨4⟩, ⟨1⟩, ⟨3⟩] },
    { id := ⟨2⟩, parent := some ⟨0⟩, blocks := [⟨3⟩] }]

def cutNest : Function := (Function.ofDraft cutNestDraft).toOption.get (by decide +kernel)

theorem cutNest_selects_inner_loops :
    let j : Job FactTable :=
      ⟨FactTable.analyses, { coalesce := true }, ⟨[cutNest], by decide⟩, cutNest⟩
    let cut : cutNest.RegionIx := ⟨1, by decide +kernel⟩
    let closed : cutNest.RegionIx := ⟨2, by decide +kernel⟩
    let start : Progress FactTable := { state := {} }
    (cutNest.kernelLoops cut).map (·.val) = [1, 3] ∧
    (∃ u, j.writeKernels cut none start = .ok ⟨⟩ u ∧
      (ofEvents u.events.toList).analyzableLoops = 3) ∧
    j.writeKernels closed none start = .ok ⟨⟩ start := by
  intro j cut closed start
  obtain ⟨-, hsafe, -⟩ := writeKernels_selects_outermost j cut none
  obtain ⟨u, hrun, -, -, hcount⟩ := hsafe (by decide +kernel) start
  have hclosed := (writeKernels_selects_outermost j closed none).1 (by decide +kernel) start
  exact ⟨by decide +kernel, ⟨u, hrun, hcount.trans (by decide +kernel)⟩, hclosed⟩

end Job

end LoopPragma
