import LoopPragma.Proofs.Annotations.Sourced
import LoopPragma.Proofs.Nesting.Frontier
import LoopPragma.Proofs.Placement.Visits

namespace LoopPragma

open Annotations Place

theorem endsLine_loopDirective (family : Family) (guard : String) :
    endsLine (family.loopDirective guard).toList := by
  unfold Family.loopDirective
  by_cases hguard : Text.trim guard.toList = []
  · simp only [hguard, if_true, String.toList_append]
    exact endsLine_append (by decide)
  · simp only [hguard, if_false, String.toList_append]
    exact endsLine_append (by decide)

theorem endsLine_kernelDirective {family : Family} {restriction : Option String}
    {directive : String} (h : family.kernelDirective? restriction = some directive) :
    endsLine directive.toList := by
  unfold Family.kernelDirective? at h
  split at h
  · cases restriction with
    | none =>
        obtain rfl := Option.some.inj h
        decide
    | some name =>
        obtain rfl := Option.some.inj h
        rw [String.toList_append]
        exact endsLine_append (by decide)
  · cases h

theorem family_eq_acc {family : Family} {restriction : Option String} {directive : String}
    (h : family.kernelDirective? restriction = some directive) : family = .acc := by
  cases family with
  | acc => rfl
  | ompGpu => cases h
  | ompCpu => cases h

namespace Job

variable {σ : Type} (j : Job σ)

-- The pieces of text that a walk with these events may put at a line.
inductive Written (run : List Event) (line : UInt32) : List Char → Prop
  | comment {target request extraction piece}
      (h : .extracted target request (some extraction) ∈ run)
      (hpiece : piece ∈ Text.pieces (extraction.comments.textAt line).toList) :
      Written run line (terminated piece)
  -- The directive of a parallel loop, with the guard of an extracted loop.
  | guarded {lp id startLine request extraction} (hmode : j.settings.coalesce = false)
      (hemit : j.settings.emitParallel) (hparallel : j.function.isParallel j.settings lp)
      (hline : j.function.startLine lp = some line)
      (h : .extracted (.loop id startLine) request (some extraction) ∈ run) :
      Written run line (j.settings.family.loopDirective extraction.guard).toList
  -- The directive of a parallel loop in a region that is offloaded as a whole.
  | unguarded {lp} (hmode : j.settings.coalesce) (hemit : j.settings.emitParallel)
      (hparallel : j.function.isParallel j.settings lp)
      (hline : j.function.startLine lp = some line) :
      Written run line (j.settings.family.loopDirective "").toList
  | kernel {lp id lines request extraction directive} (hmode : j.settings.coalesce)
      (hfamily : j.settings.family = .acc)
      (hmarked : j.settings.emitParallel → j.function.isMarkedParallel lp)
      (hline : j.function.startLine lp = some line)
      (h : .extracted (.region id lines) request (some extraction) ∈ run)
      (hdirective : j.settings.family.kernelDirective?
        (if extraction.restrict then some request.computation else none) = some directive) :
      Written run line directive.toList
  | closing {id lines request extraction} (hmode : j.settings.coalesce)
      (h : .extracted (.region id lines) request (some extraction) ∈ run)
      (hstop : lines.stop = line) : Written run line closingBrace.toList

-- What an event says was answered by the analyses: the extraction itself, and the lines of the
-- region.
def Answered : Event → Prop
  | .extracted (.loop id _) request result =>
    ∃ s t, j.analyses.extractLoop j.function request id s = .ok result t
  | .extracted (.region id lines) request result =>
    (∃ s t, j.analyses.extractRegion j.function request id s = .ok result t) ∧
      ∃ s t, j.analyses.lines j.function id s = .ok (some lines) t
  | _ => True

variable {j}

theorem Written.mono {run run' : List Event} (hsub : ∀ event ∈ run, event ∈ run') {line : UInt32}
    {piece : List Char} (h : j.Written run line piece) : j.Written run' line piece := by
  cases h with
  | comment h hpiece => exact .comment (hsub _ h) hpiece
  | guarded hmode hemit hparallel hline h =>
      exact .guarded hmode hemit hparallel hline (hsub _ h)
  | unguarded hmode hemit hparallel hline => exact .unguarded hmode hemit hparallel hline
  | kernel hmode hfamily hmarked hline h hdirective =>
      exact .kernel hmode hfamily hmarked hline (hsub _ h) hdirective
  | closing hmode h hstop => exact .closing hmode (hsub _ h) hstop

-- Since `before` only answered events have happened, those in `known` among them, and all text
-- comes from them.
def Traced (j : Job σ) (before known : List Event) (s : Progress σ) : Prop :=
  ∃ run, s.events.toList = before ++ run ∧ (∀ event ∈ known, event ∈ run) ∧
    (∀ event ∈ run, j.Answered event) ∧ Sourced (j.Written run) s.annotations

variable {before known : List Event}

theorem Traced.forget {event : Event} {s : Progress σ} (h : j.Traced before (event :: known) s) :
    j.Traced before known s := by
  obtain ⟨run, hevents, hknown, hrest⟩ := h
  exact ⟨run, hevents, fun e he => hknown e (List.mem_cons_of_mem _ he), hrest⟩

section Steps

theorem triple_forget {α : Type} {event : Event} {x : Place σ α}
    (h : Maintains (j.Traced before (event :: known)) x) :
    Triple (j.Traced before (event :: known)) x (fun _ => j.Traced before known)
      (j.Traced before known) :=
  h.mono (fun _ h => h) (fun _ _ h => h.forget) fun _ h => h.forget

theorem maintains_ask {α : Type} (q : Consult σ α) :
    Maintains (j.Traced before known) (ask q) :=
  Triple.ask (fun _ h _ _ _ => h) fun _ h _ => h

theorem triple_record {event : Event} (hanswered : j.Answered event) :
    Triple (j.Traced before known) (record event)
      (fun _ => j.Traced before (event :: known)) (j.Traced before known) := by
  apply Triple.modify
  intro s ⟨run, hevents, hknown, hrun, hsourced⟩
  have hsub : ∀ e ∈ run, e ∈ run ++ [event] := fun e he => List.mem_append_left _ he
  have hlast : event ∈ run ++ [event] := List.mem_append_right _ List.mem_cons_self
  refine ⟨run ++ [event], by simp [hevents], ?_, ?_, hsourced.mono fun _ _ hw => hw.mono hsub⟩
  · intro e he
    rcases List.mem_cons.mp he with rfl | he
    · exact hlast
    · exact hsub e (hknown e he)
  · intro e he
    rcases List.mem_append.mp he with he | he
    · exact hrun e he
    · rw [List.mem_singleton.mp he]
      exact hanswered

theorem maintains_record {event : Event} (hanswered : j.Answered event) :
    Maintains (j.Traced before known) (record event) :=
  (triple_record hanswered).mono (fun _ h => h) (fun _ _ h => h.forget) fun _ h => h

theorem maintains_count (counter : Counter) (amount : Nat) :
    Maintains (j.Traced before known) (count counter amount) :=
  maintains_record trivial

theorem inquiry_traced : j.Inquiry (j.Traced before known) where
  isComplete _ := maintains_ask _
  analyzeReduced _ := maintains_ask _
  reducedForm _ := maintains_ask _
  isSafe _ := maintains_ask _
  lines _ := maintains_ask _
  isSafelyNested _ := maintains_ask _
  counted counter amount _ := maintains_count counter amount
  analyzed _ := maintains_record trivial

theorem maintains_annotate {line : UInt32} {directive : String}
    (hend : endsLine directive.toList)
    (hw : ∀ run, (∀ event ∈ known, event ∈ run) → j.Written run line directive.toList) :
    Maintains (j.Traced before known) (Place.annotate line directive) := by
  apply Triple.modify
  intro s ⟨run, hevents, hknown, hrun, hsourced⟩
  have hterminated : terminated directive.toList = directive.toList := by
    rw [terminated, if_pos hend]
  refine ⟨run, hevents, hknown, hrun, hsourced.add ?_⟩
  rw [hterminated]
  exact hw run hknown

theorem maintains_annotateNew {line : UInt32} {directive : String}
    (hend : endsLine directive.toList)
    (hw : ∀ run, (∀ event ∈ known, event ∈ run) → j.Written run line directive.toList) :
    Maintains (j.Traced before known) (annotateNew line directive) :=
  .bind .get fun _ => .bind (maintains_annotate hend hw) fun _ => .pure _

theorem maintains_merge {target : Target} {request : ExtractRequest} {extraction : Extraction}
    (h : .extracted target request (some extraction) ∈ known) :
    Maintains (j.Traced before known) (merge extraction.comments) := by
  apply Triple.modify
  intro s ⟨run, hevents, hknown, hrun, hsourced⟩
  have hcomment (n : UInt32) (piece : List Char)
      (hpiece : piece ∈ Text.pieces (extraction.comments.textAt n).toList) :
      j.Written run n (terminated piece) := .comment (hknown _ h) hpiece
  exact ⟨run, hevents, hknown, hrun, hsourced.merge hcomment⟩

theorem triple_extract (target : Target)
    (hlines : ∀ id lines, target = .region id lines →
      ∃ s t, j.analyses.lines j.function id s = .ok (some lines) t) :
    Triple (j.Traced before known) (j.extract target)
      (fun answer => j.Traced before (.extracted target
        { computation := answer.1, startLine := target.startLine, family := j.settings.family }
        answer.2 :: known))
      (j.Traced before known) := by
  have hname : Maintains (j.Traced before known) freshName := Triple.modifyGet fun _ h => h
  refine Triple.bind hname fun computation => ?_
  cases target with
  | loop id line =>
      refine Triple.bind (triple_ask_of_maintains (maintains_ask _)) fun result =>
        Triple.of_fact fun hanswer => ?_
      exact Triple.bind (triple_record hanswer) fun _ => Triple.pure fun _ h => h
  | region id lines =>
      refine Triple.bind (triple_ask_of_maintains (maintains_ask _)) fun result =>
        Triple.of_fact fun hanswer => ?_
      have hanswered : j.Answered (.extracted (.region id lines) _ result) :=
        ⟨hanswer, hlines id lines rfl⟩
      exact Triple.bind (triple_record hanswered) fun _ => Triple.pure fun _ h => h

theorem maintains_registerCallees (blocks : List j.function.BlockIx) :
    Maintains (j.Traced before known) (j.registerCallees blocks) :=
  Triple.modify fun _ h => h

theorem mem_parallelNest {lp : j.function.LoopIx} {entry : j.function.LoopIx × UInt32}
    (h : entry ∈ j.parallelNest lp) :
    j.function.isParallel j.settings entry.1 ∧ j.function.startLine entry.1 = some entry.2 := by
  obtain ⟨inner, hinner, hentry⟩ := List.mem_filterMap.mp h
  obtain ⟨line, hline, rfl⟩ := Option.map_eq_some_iff.mp hentry
  have hkeep := (Nesting.mem_prune_iff.mp hinner).1
  exact ⟨(Bool.and_eq_true_iff.mp hkeep).1, hline⟩

theorem maintains_stampNest {guard : String} (lp : j.function.LoopIx)
    (hw : ∀ run, (∀ event ∈ known, event ∈ run) → ∀ inner line,
      j.function.isParallel j.settings inner → j.function.startLine inner = some line →
      j.Written run line (j.settings.family.loopDirective guard).toList) :
    Maintains (j.Traced before known) (j.stampNest lp guard) := by
  refine .bind (.forM fun entry hentry => ?_) fun _ => .pure _
  obtain ⟨hparallel, hline⟩ := mem_parallelNest hentry
  refine .bind (maintains_count _ _) fun _ => ?_
  refine maintains_annotate (endsLine_loopDirective _ _) ?_
  intro run hknown
  exact hw run hknown entry.1 entry.2 hparallel hline

end Steps

section Loops

variable (hmode : j.settings.coalesce = false)

include hmode

theorem maintains_commitLoop (lp : j.function.LoopIx) (startLine : UInt32) :
    Maintains (j.Traced before known) (j.commitLoop lp startLine) := by
  refine Triple.bind (triple_extract _ fun _ _ h => by cases h) fun answer => ?_
  rcases answer with ⟨computation, _ | extraction⟩
  · exact Triple.pure fun _ h => h.forget
  · refine triple_forget (.bind (maintains_registerCallees _) fun _ => ?_)
    refine .bind (maintains_merge List.mem_cons_self) fun _ => .ite (fun hemit => ?_) fun _ => ?_
    · refine .bind (maintains_stampNest lp ?_) fun _ => .pure _
      intro run hknown inner line hparallel hline
      exact .guarded hmode hemit hparallel hline (hknown _ List.mem_cons_self)
    · exact maintains_count _ _

end Loops

section Regions

variable (hmode : j.settings.coalesce)

include hmode

theorem maintains_writeKernel {id : RegionId} {lines : LineSpan} {request : ExtractRequest}
    {extraction : Extraction} (h : .extracted (.region id lines) request (some extraction) ∈ known)
    (lp : j.function.LoopIx) : Maintains (j.Traced before known)
      (j.writeKernel (if extraction.restrict then some request.computation else none) lp) := by
  rw [writeKernel]
  cases hline : j.function.startLine lp with
  | none => exact .pure _
  | some line =>
      have hkernel (directive : String) (hdirective : j.settings.family.kernelDirective?
            (if extraction.restrict then some request.computation else none) = some directive)
          (hmarked : j.settings.emitParallel → j.function.isMarkedParallel lp) (run : List Event)
          (hknown : ∀ event ∈ known, event ∈ run) : j.Written run line directive.toList :=
        .kernel hmode (family_eq_acc hdirective) hmarked hline (hknown _ h) hdirective
      refine .ite (fun hemit => .ite (fun hmarked => ?_) fun _ => .pure _) fun hsilent => ?_
      · have hstamped (new : Bool) : Maintains (j.Traced before known)
            (do if (← j.stampNest lp "") = 0 && new then count .annotatedLoops 1) := by
          refine .bind (maintains_stampNest lp ?_) fun _ => ?_
          · intro run hknown inner line hparallel hline
            exact .unguarded hmode hemit hparallel hline
          · exact .ite (fun _ => maintains_count _ _) fun _ => .pure _
        cases hdirective : j.settings.family.kernelDirective?
            (if extraction.restrict then some request.computation else none) with
        | none => exact .bind (.pure false) hstamped
        | some directive =>
            have hend := endsLine_kernelDirective hdirective
            have hw := hkernel directive hdirective fun _ => hmarked
            exact .bind (maintains_annotateNew hend hw) hstamped
      · cases hdirective : j.settings.family.kernelDirective?
            (if extraction.restrict then some request.computation else none) with
        | none => exact .pure _
        | some directive =>
            have hend := endsLine_kernelDirective hdirective
            have hw := hkernel directive hdirective fun hemit => absurd hemit hsilent
            exact .bind (maintains_annotate hend hw) fun _ => maintains_count _ _

theorem maintains_commitRegion {id : RegionId} {lines : LineSpan}
    (hlines : ∃ s t, j.analyses.lines j.function id s = .ok (some lines) t) :
    Maintains (j.Traced before known) (j.commitRegion id lines) := by
  have htarget (id' : RegionId) (lines' : LineSpan)
      (heq : Target.region id lines = .region id' lines') :
      ∃ s t, j.analyses.lines j.function id' s = .ok (some lines') t := by
    cases heq
    exact hlines
  refine Triple.bind (triple_extract _ htarget) fun answer => ?_
  rcases answer with ⟨computation, _ | extraction⟩
  · exact Triple.pure fun _ h => h.forget
  · refine triple_forget (.bind ?_ fun r => ?_)
    · cases j.function.region id with
      | ok r => exact .pure _
      | error e => exact fun _ h => .error h
    · refine .bind (maintains_registerCallees _) fun _ => ?_
      refine .bind (maintains_merge List.mem_cons_self) fun _ => .bind ?_ fun _ => ?_
      · refine .ite (fun _ => .forM fun lp _ => ?_) fun _ => .pure _
        refine .bind (maintains_count _ _) fun _ => ?_
        exact maintains_writeKernel hmode List.mem_cons_self lp
      · refine maintains_annotate (by decide) ?_
        intro run hknown
        exact .closing hmode (hknown _ List.mem_cons_self) rfl

end Regions

theorem maintains_walkFrom (root : j.function.RegionIx) :
    Maintains (j.Traced before known) (j.walkFrom root) := by
  rw [walkFrom]
  cases hmode : j.settings.coalesce with
  | true => exact inquiry_traced.offloadRegions (fun _ _ => maintains_commitRegion hmode) root
  | false => exact inquiry_traced.markLoops (maintains_commitLoop hmode) root

-- At every line a walk leaves pieces of those kinds only, whatever the analyses answer and whether
-- or not it ends in a fault. Every extraction behind a piece was answered during the walk.
theorem walkFrom_text_sourced (j : Job σ) (root : j.function.RegionIx) (shared : Shared σ) :
    ∃ run, ((j.walkFrom root).after { toShared := shared }).events.toList =
        shared.events.toList ++ run ∧
      (∀ event ∈ run, j.Answered event) ∧
      ∀ line, ∃ pieces : List (List Char),
        (((j.walkFrom root).after { toShared := shared }).annotations.textAt line).toList =
          pieces.flatten ∧
        ∀ piece ∈ pieces, j.Written run line piece := by
  have hstart : j.Traced shared.events.toList [] { toShared := shared } :=
    ⟨[], by simp, by simp, by simp, .empty⟩
  obtain ⟨run, hevents, -, hanswered, hsourced⟩ :=
    after_of_maintains (maintains_walkFrom root) hstart
  exact ⟨run, hevents, hanswered, hsourced⟩

end Job

end LoopPragma
