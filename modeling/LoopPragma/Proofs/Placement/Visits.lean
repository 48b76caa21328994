import LoopPragma.Placement.Annotate
import LoopPragma.Proofs.Placement.Triple

namespace LoopPragma

namespace Job

open Place

variable {σ : Type}

-- An invariant of the steps of a visit to a region, its commits apart.
structure Questions (j : Job σ) (I : Progress σ → Prop) : Prop where
  isComplete : ∀ id, Maintains I (ask (j.analyses.isComplete j.function id))
  analyzeReduced : ∀ id, Maintains I (ask (j.analyses.analyzeReduced j.function id))
  reducedForm : ∀ id, Maintains I (ask (j.analyses.reducedForm j.function id))
  isSafe : ∀ id, Maintains I (ask (j.analyses.isSafe j.function id))
  lines : ∀ id, Maintains I (ask (j.analyses.lines j.function id))
  isSafelyNested : ∀ id, Maintains I (ask (j.analyses.isSafelyNested j.function id))
  analyzed : ∀ id, Maintains I (record (.analyzed id))

-- An invariant of the visits to the loops that own regions too.
structure Inspection (j : Job σ) (I : Progress σ → Prop) : Prop extends j.Questions I where
  countNest : ∀ lp, Maintains I (j.countNest .analyzableLoops lp)

-- An invariant of the survey before the walk as well. Annotated loops are counted by commits alone.
structure Inquiry (j : Job σ) (I : Progress σ → Prop) : Prop extends j.Inspection I where
  counted : ∀ counter amount, counter ≠ .annotatedLoops → Maintains I (count counter amount)
  countNest := fun _ => counted _ _ nofun

theorem triple_ask_of_maintains {α : Type} {I : Progress σ → Prop} {q : Consult σ α}
    (h : Maintains I (ask q)) :
    Triple I (ask q) (fun answer s => I s ∧ ∃ u v, q u = .ok answer v) I := by
  intro s hs
  have hend := h s hs
  simp only [ask] at hend ⊢
  cases hq : q s.state with
  | ok answer state =>
      rw [hq] at hend
      cases hend with
      | ok hs => exact .ok ⟨hs, s.state, state, hq⟩
  | error e state =>
      rw [hq] at hend
      cases hend with
      | error hs => exact .error hs

theorem maintains_ask_allM {α : Type} {I : Progress σ → Prop} {test : α → Consult σ Bool}
    {xs : List α} (h : ∀ a ∈ xs, Maintains I (ask (test a))) :
    Maintains I (ask (xs.allM test)) := by
  induction xs with
  | nil => exact fun _ hs => .ok hs
  | cons a xs ih =>
      have hstep : ask ((a :: xs).allM test) = (do
          if ← ask (test a) then ask (xs.allM test) else return false) := by
        funext s
        simp only [ask, List.allM, bind, EStateM.bind]
        cases test a s.state with
        | error e u => rfl
        | ok answer u => cases answer <;> rfl
      have hxs := ih fun b hb => h b (List.mem_cons_of_mem _ hb)
      rw [hstep]
      exact .bind (h a List.mem_cons_self) fun _ => .ite (fun _ => hxs) fun _ => .pure _

namespace Questions

variable {j : Job σ} {I J : Progress σ → Prop} (h : j.Questions I)

include h

theorem isAnalyzable (lp : j.function.LoopIx) :
    Maintains I (ask (j.analyses.isAnalyzable j.function lp)) := by
  apply maintains_ask_allM
  intro b _
  cases j.function.innermostRegion b with
  | none => exact fun _ hs => .ok hs
  | some r => exact h.isComplete _

theorem isEligible (r : j.function.RegionIx) (lp : j.function.LoopIx) :
    Maintains I (j.isEligible r lp) := by
  refine .ite (fun _ => .pure _) fun _ => .bind (h.isAnalyzable lp) fun _ => ?_
  exact .ite (fun _ => h.isSafelyNested _) fun _ => .pure _

section Commits

variable (hweak : ∀ s, I s → J s)
  (hcommit : ∀ id lines, (∃ s t, j.analyses.lines j.function id s = .ok (some lines) t) →
    Triple I (j.commitRegion id lines) (fun _ => J) J)

include hweak hcommit

-- The commit comes last. Unless it was tried, what held before still holds.
theorem commitReduced_of_commit (id : RegionId) :
    Triple I (j.commitReduced id) (fun tried s => if tried then J s else I s) J := by
  have hdone : Triple I (Pure.pure false : Place σ Bool)
      (fun tried s => if tried then J s else I s) J := .pure fun _ hs => hs
  refine .bind ((h.analyzeReduced id).triple hweak) fun _ => ?_
  refine .bind ((h.analyzed id).triple hweak) fun _ => ?_
  refine .bind ((h.reducedForm id).triple hweak) fun answer => ?_
  cases answer with
  | none => exact hdone
  | some reduced =>
      refine .bind ((h.isSafe reduced).triple hweak) fun safe =>
        .ite (fun _ => ?_) fun _ => hdone
      refine .bind ((h.isComplete reduced).triple hweak) fun complete =>
        .ite (fun _ => ?_) fun _ => hdone
      have hlines := (triple_ask_of_maintains (h.lines reduced)).mono (fun _ hs => hs)
        (fun _ _ hs => hs) hweak
      refine .bind hlines fun lines => .of_fact fun hlines => ?_
      cases lines with
      | none => exact hdone
      | some lines => exact .bind (hcommit reduced lines hlines) fun _ => .pure fun _ hs => hs

theorem visitRegion_of_commit (r : j.function.RegionIx) :
    Triple I (j.visitRegion r) (fun goOn s => if goOn then I s else J s) J := by
  have hdone : Triple I (Pure.pure true : Place σ Bool)
      (fun goOn s => if goOn then I s else J s) J := .pure fun _ hs => hs
  have hlines := (triple_ask_of_maintains (h.lines (j.function.regionId r))).mono
    (fun _ hs => hs) (fun _ _ hs => hs) hweak
  refine .bind hlines fun lines => .of_fact fun hlines => .ite (fun _ => ?_) fun _ => hdone
  refine .bind ((h.isSafelyNested _).triple hweak) fun nested => .ite (fun _ => ?_) fun _ => hdone
  cases lines with
  | none => exact hdone
  | some lines =>
      have hreduced : Triple I (do return !(← j.commitReduced (j.function.regionId r)))
          (fun goOn s => if goOn then I s else J s) J := by
        refine .bind (h.commitReduced_of_commit hweak hcommit _) fun tried => .pure fun _ hs => ?_
        cases tried <;> exact hs
      refine .bind ((h.isComplete _).triple hweak) fun complete =>
        .ite (fun _ => ?_) fun _ => hreduced
      refine .bind ((h.isSafe _).triple hweak) fun safe =>
        .ite (fun _ => ?_) fun _ => hreduced
      exact .bind (hcommit _ lines hlines) fun _ => .pure fun _ hs => hs

end Commits

section Regions

variable (hcommit : ∀ id lines, (∃ s t, j.analyses.lines j.function id s = .ok (some lines) t) →
  Maintains I (j.commitRegion id lines))

include hcommit

theorem commitReduced (id : RegionId) : Maintains I (j.commitReduced id) :=
  (h.commitReduced_of_commit (fun _ hs => hs) hcommit id).mono (fun _ hs => hs)
    (fun _ _ hs => by rwa [ite_self] at hs) fun _ hs => hs

theorem visitRegion (r : j.function.RegionIx) : Maintains I (j.visitRegion r) :=
  (h.visitRegion_of_commit (fun _ hs => hs) hcommit r).mono (fun _ hs => hs)
    (fun _ _ hs => by rwa [ite_self] at hs) fun _ hs => hs

theorem offloadRegions (root : j.function.RegionIx) : Maintains I (j.offloadRegions root) :=
  .walk _ (h.visitRegion hcommit) [root]

end Regions

end Questions

namespace Inspection

variable {j : Job σ} {I J : Progress σ → Prop} (h : j.Inspection I)

include h

theorem visitLoopOf_of_commit (hweak : ∀ s, I s → J s)
    (hcommit : ∀ lp startLine, Triple I (j.commitLoop lp startLine) (fun _ => J) J)
    (r : j.function.RegionIx) :
    Triple I (j.visitLoopOf r) (fun goOn s => if goOn then I s else J s) J := by
  rw [Job.visitLoopOf]
  cases j.function.ownerLoop r with
  | none => exact .pure fun _ hs => hs
  | some lp =>
      refine .bind ((h.isEligible r lp).triple hweak) fun eligible =>
        .ite (fun _ => ?_) fun _ => .pure fun _ hs => hs
      refine .bind ((h.countNest lp).triple hweak) fun _ => ?_
      cases j.function.startLine lp with
      | none => exact .pure hweak
      | some startLine => exact .bind (hcommit lp startLine) fun _ => .pure fun _ hs => hs

section Loops

variable (hcommit : ∀ lp startLine, Maintains I (j.commitLoop lp startLine))

include hcommit

theorem visitLoopOf (r : j.function.RegionIx) : Maintains I (j.visitLoopOf r) :=
  (h.visitLoopOf_of_commit (fun _ hs => hs) hcommit r).mono (fun _ hs => hs)
    (fun _ _ hs => by rwa [ite_self] at hs) fun _ hs => hs

theorem markLoops (root : j.function.RegionIx) : Maintains I (j.markLoops root) :=
  .walk _ (h.visitLoopOf hcommit) [root]

end Loops

theorem walkFrom
    (hregion : ∀ id lines, (∃ s t, j.analyses.lines j.function id s = .ok (some lines) t) →
      Maintains I (j.commitRegion id lines))
    (hloop : ∀ lp startLine, Maintains I (j.commitLoop lp startLine))
    (root : j.function.RegionIx) : Maintains I (j.walkFrom root) :=
  .ite (fun _ => h.offloadRegions hregion root) fun _ => h.markLoops hloop root

end Inspection

namespace Inquiry

variable {j : Job σ} {I : Progress σ → Prop} (h : j.Inquiry I)

include h

theorem countLoops : Maintains I j.countLoops := by
  refine .bind (.forM fun _ _ => h.counted _ _ nofun) fun _ => .forM fun lp _ => ?_
  exact .bind (h.isAnalyzable lp) fun _ => .ite (fun _ => h.counted _ _ nofun) fun _ => .pure _

theorem annotateBody
    (hregion : ∀ id lines, (∃ s t, j.analyses.lines j.function id s = .ok (some lines) t) →
      Maintains I (j.commitRegion id lines))
    (hloop : ∀ lp startLine, Maintains I (j.commitLoop lp startLine)) :
    Maintains I j.annotateBody :=
  .bind h.countLoops fun _ => .ite (fun _ => h.walkFrom hregion hloop _) fun _ => .pure _

end Inquiry

theorem maintains_annotate_of_body {j : Job σ} {I : Shared σ → Prop}
    (hbody : Maintains (fun s : Progress σ => I s.toShared) j.annotateBody) :
    Maintains I j.annotate := by
  intro shared h
  rw [annotate]
  by_cases hdecl : j.function.isDeclaration
  · rw [if_pos hdecl]
    exact .ok h
  · rw [if_neg hdecl]
    have hend := hbody { toShared := shared } h
    generalize j.annotateBody _ = u at hend ⊢
    cases hend with
    | ok h => exact .ok h
    | error h => exact .error h

end Job

end LoopPragma
