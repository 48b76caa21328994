import LoopPragma.Placement.LoopWalk
import LoopPragma.Placement.RegionWalk
import LoopPragma.Proofs.Placement.Triple

namespace LoopPragma

-- What a walk counts. The other counters belong to the survey before it.
def Counter.IsOfWalk (counter : Counter) : Prop :=
  counter = .analyzableLoops ∨ counter = .annotatedLoops

-- An invariant that looks neither at the text and the routines nor at how many loops are annotated.
structure IgnoresMarking {σ : Type} (I : Progress σ → Prop) : Prop where
  stamped : ∀ s amount, I s →
    I { s with events := s.events.push (.counted .annotatedLoops amount) }
  annotated : ∀ s a, I s → I { s with annotations := a }
  registered : ∀ s routines, I s → I { s with routines }

-- One that looks at no count of a walk either.
structure IgnoresOutput {σ : Type} (I : Progress σ → Prop) : Prop extends IgnoresMarking I where
  counted : ∀ s counter amount, counter.IsOfWalk → I s →
    I { s with events := s.events.push (.counted counter amount) }
  stamped := fun s amount => counted s .annotatedLoops amount (Or.inr rfl)

structure IgnoresWriting {σ : Type} (I : Progress σ → Prop) : Prop extends IgnoresOutput I where
  named : ∀ s k, I s → I { s with computations := k }

namespace IgnoresMarking

open Place

variable {σ : Type} {I : Progress σ → Prop} (hI : IgnoresMarking I) {j : Job σ}

include hI

theorem countAnnotated (amount : Nat) : Maintains I (Place.count .annotatedLoops amount) :=
  Triple.modify fun s hs => hI.stamped s _ hs

theorem annotate (line : UInt32) (directive : String) :
    Maintains I (Place.annotate line directive) :=
  Triple.modify fun s hs => hI.annotated s _ hs

theorem annotateNew (line : UInt32) (directive : String) :
    Maintains I (Place.annotateNew line directive) :=
  .bind .get fun _ => .bind (hI.annotate line directive) fun _ => .pure _

theorem stampNest (lp : j.function.LoopIx) (guard : String) : Maintains I (j.stampNest lp guard) :=
  .bind (.forM fun _ _ => .bind (hI.countAnnotated _) fun _ => hI.annotate _ _) fun _ => .pure _

theorem writeKernel (restriction : Option String) (lp : j.function.LoopIx) :
    Maintains I (j.writeKernel restriction lp) := by
  rw [Job.writeKernel]
  cases j.function.startLine lp with
  | none => exact .pure _
  | some line =>
      refine .ite (fun _ => .ite (fun _ => ?_) fun _ => .pure _) fun _ => ?_
      · have hstamped (new : Bool) : Maintains I
            (do if (← j.stampNest lp "") = 0 && new then Place.count .annotatedLoops 1) :=
          .bind (hI.stampNest lp _) fun _ => .ite (fun _ => hI.countAnnotated _) fun _ => .pure _
        cases j.settings.family.kernelDirective? restriction with
        | none => exact .bind (.pure false) hstamped
        | some directive => exact .bind (hI.annotateNew line directive) hstamped
      · cases j.settings.family.kernelDirective? restriction with
        | none => exact .pure _
        | some directive =>
            exact .bind (hI.annotate line directive) fun _ => hI.countAnnotated _

theorem merge (comments : Annotations) : Maintains I (Place.merge comments) :=
  Triple.modify fun s hs => hI.annotated s _ hs

theorem registerCallees (blocks : List j.function.BlockIx) :
    Maintains I (j.registerCallees blocks) :=
  Triple.modify fun s hs => hI.registered s _ hs

-- A loop is extracted with its line at hand. If that succeeds, all that follows is writing.
theorem commitLoop_of_answer {pre failed : Progress σ → Prop} {lp : j.function.LoopIx}
    {startLine : UInt32}
    (hextract : Triple pre (j.extract (.loop (j.function.loopId lp) startLine))
      (fun answer s => if answer.2.isSome then I s else failed s) fun s => I s ∨ failed s) :
    Triple pre (j.commitLoop lp startLine) (fun _ s => I s ∨ failed s)
      fun s => I s ∨ failed s := by
  refine .bind hextract fun answer => ?_
  rcases answer with ⟨computation, _ | extraction⟩
  · exact .pure fun _ hs => Or.inr hs
  · have hwriting : Maintains I (do
        j.registerCallees (j.function.loopBlocks lp).toList
        Place.merge extraction.comments
        if j.settings.emitParallel then
          let _ ← j.stampNest lp extraction.guard
        else
          j.countNest .annotatedLoops lp) := by
      refine .bind (hI.registerCallees _) fun _ => .bind (hI.merge _) fun _ => ?_
      refine .ite (fun _ => .bind (hI.stampNest lp _) fun _ => .pure _) fun _ => ?_
      exact hI.countAnnotated _
    exact hwriting.mono (fun _ hs => hs) (fun _ _ => Or.inl) fun _ => Or.inl

theorem commitLoop_of_triple {pre : Progress σ → Prop} {lp : j.function.LoopIx}
    {startLine : UInt32}
    (hextract : Triple pre (j.extract (.loop (j.function.loopId lp) startLine)) (fun _ => I) I) :
    Triple pre (j.commitLoop lp startLine) (fun _ => I) I := by
  have hanswer : Triple pre (j.extract (.loop (j.function.loopId lp) startLine))
      (fun answer s => if answer.2.isSome then I s else I s) fun s => I s ∨ I s :=
    hextract.mono (fun _ hs => hs) (fun _ _ hs => by rwa [ite_self]) fun _ => Or.inl
  simpa only [or_self] using hI.commitLoop_of_answer hanswer

end IgnoresMarking

namespace IgnoresOutput

open Place

variable {σ : Type} {I : Progress σ → Prop} (hI : IgnoresOutput I) {j : Job σ}

include hI

theorem countNest (lp : j.function.LoopIx) : Maintains I (j.countNest .analyzableLoops lp) :=
  Triple.modify fun s hs => hI.counted s .analyzableLoops _ (Or.inl rfl) hs

theorem writeKernels (r : j.function.RegionIx) (restriction : Option String) :
    Maintains I (j.writeKernels r restriction) := by
  refine .ite (fun _ => .forM fun lp _ => ?_) fun _ => .pure _
  exact .bind (hI.countNest lp) fun _ => hI.writeKernel restriction lp

-- Behind a successful extraction of a region there is only writing, unless its id leads to a fault.
theorem commitRegion_of_answer {pre failed : Progress σ → Prop} {id : RegionId} {lines : LineSpan}
    (hextract : Triple pre (j.extract (.region id lines))
      (fun answer s => if answer.2.isSome then I s else failed s) fun s => I s ∨ failed s) :
    Triple pre (j.commitRegion id lines) (fun _ s => I s ∨ failed s)
      fun s => I s ∨ failed s := by
  refine .bind hextract fun answer => ?_
  rcases answer with ⟨computation, _ | extraction⟩
  · exact .pure fun _ hs => Or.inr hs
  · have hregion : Maintains I (ofExcept (j.function.region id) : Place σ _) := by
      cases j.function.region id with
      | ok r => exact .pure _
      | error e => exact fun _ hs => .error hs
    have hwriting : Maintains I (do
        let r ← ofExcept (j.function.region id)
        j.registerCallees (j.function.regionBlocks r).toList
        Place.merge extraction.comments
        j.writeKernels r (if extraction.restrict then some computation else none)
        Place.annotate lines.stop closingBrace) := by
      refine .bind hregion fun r => .bind (hI.registerCallees _) fun _ => ?_
      exact .bind (hI.merge _) fun _ => .bind (hI.writeKernels r _) fun _ => hI.annotate _ _
    exact hwriting.mono (fun _ hs => hs) (fun _ _ => Or.inl) fun _ => Or.inl

theorem commitRegion_of_triple {pre : Progress σ → Prop} {id : RegionId} {lines : LineSpan}
    (hextract : Triple pre (j.extract (.region id lines)) (fun _ => I) I) :
    Triple pre (j.commitRegion id lines) (fun _ => I) I := by
  have hanswer : Triple pre (j.extract (.region id lines))
      (fun answer s => if answer.2.isSome then I s else I s) fun s => I s ∨ I s :=
    hextract.mono (fun _ hs => hs) (fun _ _ hs => by rwa [ite_self]) fun _ => Or.inl
  simpa only [or_self] using hI.commitRegion_of_answer hanswer

theorem commitRegion_of_extract {id : RegionId} {lines : LineSpan}
    (hextract : Maintains I (j.extract (.region id lines))) :
    Maintains I (j.commitRegion id lines) :=
  hI.commitRegion_of_triple hextract

end IgnoresOutput

namespace IgnoresWriting

open Place

variable {σ : Type} {I : Progress σ → Prop} (hI : IgnoresWriting I) {j : Job σ}

include hI

theorem freshName : Maintains I Place.freshName :=
  Triple.modifyGet fun s hs => hI.named s _ hs

theorem commitRegion {id : RegionId} {lines : LineSpan}
    (hask : ∀ request, Maintains I (ask (j.analyses.extractRegion j.function request id)))
    (hevent : ∀ s request result, I s →
      I { s with events := s.events.push (.extracted (.region id lines) request result) }) :
    Maintains I (j.commitRegion id lines) := by
  apply hI.commitRegion_of_extract
  refine .bind hI.freshName fun _ => .bind (hask _) fun result => .bind ?_ fun _ => .pure _
  exact Triple.modify fun s hs => hevent s _ result hs

end IgnoresWriting

end LoopPragma
