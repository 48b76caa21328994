import LoopPragma.Placement.Annotate
import LoopPragma.Proofs.Facts.Marks
import LoopPragma.Proofs.Model.Attached
import LoopPragma.Proofs.Placement.Simulation
import LoopPragma.Proofs.Routines.Reachability

namespace LoopPragma

open Place

-- A placement with earlier routines and events beside one without. The tables of facts are related
-- in a way of their own.
structure Alike (p : Program) (before : Routines) (earlier : List Event)
    (R : FactTable → FactTable → Prop) (s t : Progress FactTable) : Prop where
  annotations : s.annotations = t.annotations
  computations : s.computations = t.computations
  facts : R s.state t.state
  events : s.events.toList = earlier ++ t.events.toList
  routines : ∀ name, name ∈ s.routines ↔ name ∈ before ∨ name ∈ t.routines
  closed_before : p.Closed before
  closed : p.Closed t.routines

namespace FactTable

def Same (base t u : FactTable) : Prop := t.unmarked = base.unmarked ∧ u.unmarked = base.unmarked

theorem Same.unmarked_eq {base t u : FactTable} (h : Same base t u) : t.unmarked = u.unmarked :=
  h.1.trans h.2.symm

abbrev job (settings : Settings) (p : Program) (f : Function) : Job FactTable :=
  ⟨analyses, settings, p, f⟩

section Questions

variable {base : FactTable} {f : Function}

theorem answer_eq {α : Type} {answer : FactTable → α} (h : ∀ t, answer t.unmarked = answer t)
    (base t u : FactTable) (htu : Same base t u) : answer t = answer u := by
  rw [← h t, htu.unmarked_eq, h u]

theorem keeps_reading {α : Type} {answer : FactTable → Except Fault α}
    (h : ∀ t, answer t.unmarked = answer t) :
    Keeps (Same base) (reading answer) (reading answer) :=
  (Agrees.reading (answer_eq h base)).mono (fun _ _ htu => htu) fun _ _ _ hpost => hpost.1

theorem keeps_returning {α : Type} {answer : FactTable → α}
    (h : ∀ t, answer t.unmarked = answer t) :
    Keeps (Same base) (do return answer (← get) : Consult FactTable α)
      (do return answer (← get)) :=
  (Agrees.returning (answer_eq h base)).mono (fun _ _ htu => htu) fun _ _ _ hpost => hpost.1

theorem keeps_isAnalyzable (lp : f.LoopIx) :
    Keeps (Same base) (analyses.isAnalyzable f lp) (analyses.isAnalyzable f lp) := by
  rw [Analyses.isAnalyzable, Function.allRegionsOf]
  apply Keeps.allM
  intro b _
  cases hb : f.innermostRegion b with
  | none => exact .pure _
  | some r =>
      have hr := Function.attached_of_innermostRegion hb
      exact keeps_reading fun t => isComplete_unmarked hr

-- Where a reduced form is named, the tables also agree on whether it is complete. Its mark is the
-- only one that a walk from an attached region ever reads.
def CompleteAlike (base : FactTable) (f : Function) : Option RegionId → FactTable → FactTable → Prop
  | none, t, u => Same base t u
  | some r, t, u => Same base t u ∧ t.isComplete f r = u.isComplete f r

theorem CompleteAlike.same {answer : Option RegionId} {t u : FactTable}
    (h : CompleteAlike base f answer t u) : Same base t u := by
  cases answer with
  | none => exact h
  | some r => exact h.1

theorem agrees_analyzeReduced (r : RegionId) :
    Agrees (Same base) (analyses.analyzeReduced f r) (analyses.analyzeReduced f r)
      fun _ t u => CompleteAlike base f (t.reducedForm f r) t u := by
  apply Agrees.modify
  intro t u htu
  have hsame : Same base (t.analyzeReduced f r) (u.analyzeReduced f r) := by
    rw [Same, unmarked_analyzeReduced, unmarked_analyzeReduced]
    exact htu
  have hform : (t.analyzeReduced f r).reducedForm f r = t.reducedForm f r := by
    rw [← reducedForm_unmarked, unmarked_analyzeReduced, reducedForm_unmarked]
  rw [hform]
  cases hreduced : t.reducedForm f r with
  | none => exact hsame
  | some reduced => exact ⟨hsame, isComplete_analyzeReduced htu.unmarked_eq hreduced⟩

theorem agrees_reducedForm (r : RegionId) :
    Agrees (fun t u => CompleteAlike base f (t.reducedForm f r) t u) (analyses.reducedForm f r)
      (analyses.reducedForm f r) (CompleteAlike base f) := by
  have hsame (t u : FactTable) (htu : CompleteAlike base f (t.reducedForm f r) t u) :
      t.reducedForm f r = u.reducedForm f r := by
    rw [← reducedForm_unmarked, htu.same.unmarked_eq, reducedForm_unmarked]
  refine (Agrees.returning hsame).mono (fun _ _ htu => htu) ?_
  intro answer t u hpost
  exact hpost.2 ▸ hpost.1

theorem keeps_isSafe (r : RegionId) :
    Keeps (CompleteAlike base f (some r)) (analyses.isSafe f r) (analyses.isSafe f r) := by
  have hsame (t u : FactTable) (htu : CompleteAlike base f (some r) t u) :
      t.isSafe f r = u.isSafe f r := by
    rw [← isSafe_unmarked, htu.same.unmarked_eq, isSafe_unmarked]
  exact (Agrees.returning hsame).mono (fun _ _ htu => htu) fun _ _ _ hpost => hpost.1

theorem agrees_isComplete (r : RegionId) :
    Agrees (CompleteAlike base f (some r)) (analyses.isComplete f r) (analyses.isComplete f r)
      fun _ => Same base := by
  have hsame (t u : FactTable) (htu : CompleteAlike base f (some r) t u) :
      t.isComplete f r = u.isComplete f r := htu.2
  exact (Agrees.reading hsame).mono (fun _ _ htu => htu) fun _ _ _ hpost => hpost.1.1

end Questions

section Steps

variable {base : FactTable} {p : Program} {before : Routines} {earlier : List Event}
  {R : FactTable → FactTable → Prop}

theorem agrees_ask {α : Type} {q : Consult FactTable α} {R' : α → FactTable → FactTable → Prop}
    (hq : Agrees R q q R') : Agrees (Alike p before earlier R) (ask q) (ask q)
      fun a => Alike p before earlier (R' a) := by
  refine Agrees.ask hq (fun s t h => h.facts) ?_
  intro s t h _ u v huv
  exact { h with facts := huv }

theorem keeps_ask_reading {α : Type} {answer : FactTable → Except Fault α}
    (h : ∀ t, answer t.unmarked = answer t) :
    Keeps (Alike p before earlier (Same base)) (ask (reading answer)) (ask (reading answer)) :=
  agrees_ask (keeps_reading h)

theorem keeps_ask_returning {α : Type} {answer : FactTable → α}
    (h : ∀ t, answer t.unmarked = answer t) :
    Keeps (Alike p before earlier (Same base)) (ask do return answer (← get))
      (ask do return answer (← get)) :=
  agrees_ask (keeps_returning h)

theorem keeps_record (event : Event) :
    Keeps (Alike p before earlier R) (record event) (record event) := by
  apply Agrees.modify
  intro s t h
  exact { h with events := by simp [h.events] }

theorem keeps_count (counter : Counter) (amount : Nat) :
    Keeps (Alike p before earlier R) (count counter amount) (count counter amount) :=
  keeps_record _

theorem keeps_annotate (line : UInt32) (directive : String) :
    Keeps (Alike p before earlier R) (annotate line directive) (annotate line directive) := by
  apply Agrees.modify
  intro s t h
  exact { h with annotations := by simp [h.annotations] }

theorem keeps_annotateNew (line : UInt32) (directive : String) :
    Keeps (Alike p before earlier R) (annotateNew line directive) (annotateNew line directive) := by
  -- Read alone, the two states would be different answers. The step is taken as a whole.
  have hstep {σ : Type} : (annotateNew line directive : Place σ Bool) = modifyGet fun s =>
      ((s.annotations.add? line directive).isSome,
        { s with annotations := s.annotations.add line directive }) := rfl
  rw [hstep]
  apply Agrees.modifyGet
  intro s t h
  exact ⟨by simp [h.annotations], { h with annotations := by simp [h.annotations] }⟩

theorem keeps_merge (comments : Annotations) :
    Keeps (Alike p before earlier R) (merge comments) (merge comments) := by
  apply Agrees.modify
  intro s t h
  exact { h with annotations := by simp [h.annotations] }

theorem keeps_freshName : Keeps (Alike p before earlier R) freshName freshName := by
  apply Agrees.modifyGet
  intro s t h
  exact ⟨by simp [h.computations], { h with computations := by simp [h.computations] }⟩

end Steps

section Visits

variable {base : FactTable} {settings : Settings} {p p' : Program} {f : Function}
  {before : Routines} {earlier : List Event}

theorem keeps_extract (target : Target) :
    Keeps (Alike p before earlier (Same base)) ((job settings p f).extract target)
      ((job settings p' f).extract target) := by
  refine .bind keeps_freshName fun computation => ?_
  refine .bind ?_ fun result => .bind (keeps_record _) fun _ => .pure _
  cases target with
  | loop id line => exact keeps_ask_returning fun t => extractLoop_unmarked t f _ id
  | region id lines => exact keeps_ask_returning fun t => extractRegion_unmarked t f id _

theorem keeps_stampNest (lp : f.LoopIx) (guard : String) :
    Keeps (Alike p before earlier (Same base)) ((job settings p f).stampNest lp guard)
      ((job settings p' f).stampNest lp guard) := by
  refine .bind (.forM fun entry _ => ?_) fun _ => .pure _
  exact .bind (keeps_count _ _) fun _ => keeps_annotate _ _

theorem keeps_isEligible (r : f.RegionIx) (lp : f.LoopIx) :
    Keeps (Alike p before earlier (Same base)) ((job settings p f).isEligible r lp)
      ((job settings p' f).isEligible r lp) := by
  refine .ite (fun _ => .pure _) fun _ => ?_
  refine .bind (agrees_ask (keeps_isAnalyzable lp)) fun analyzable => ?_
  refine .ite (fun _ => ?_) fun _ => .pure _
  exact keeps_ask_reading fun t => isSafelyNested_unmarked t f _

theorem keeps_writeKernel (restriction : Option String) (lp : f.LoopIx) :
    Keeps (Alike p before earlier (Same base)) ((job settings p f).writeKernel restriction lp)
      ((job settings p' f).writeKernel restriction lp) := by
  rw [Job.writeKernel, Job.writeKernel]
  cases f.startLine lp with
  | none => exact .pure _
  | some line =>
      refine .ite (fun _ => .ite (fun _ => ?_) fun _ => .pure _) fun _ => ?_
      · have hstamped (new : Bool) : Keeps (Alike p before earlier (Same base))
            (do
              if (← (job settings p f).stampNest lp "") = 0 && new then count .annotatedLoops 1)
            (do
              if (← (job settings p' f).stampNest lp "") = 0 && new then count .annotatedLoops 1) :=
          .bind (keeps_stampNest lp _) fun _ => .ite (fun _ => keeps_count _ _) fun _ => .pure _
        cases settings.family.kernelDirective? restriction with
        | none => exact .bind (.pure false) hstamped
        | some directive => exact .bind (keeps_annotateNew line directive) hstamped
      · cases settings.family.kernelDirective? restriction with
        | none => exact .pure _
        | some directive => exact .bind (keeps_annotate line directive) fun _ => keeps_count _ _

theorem keeps_writeKernels (r : f.RegionIx) (restriction : Option String) :
    Keeps (Alike p before earlier (Same base)) ((job settings p f).writeKernels r restriction)
      ((job settings p' f).writeKernels r restriction) := by
  refine .ite (fun _ => .forM fun lp _ => ?_) fun _ => .pure _
  exact .bind (keeps_count _ _) fun _ => keeps_writeKernel restriction lp

-- The other program registers the same routines, but may hold its functions in another order.
variable (hsame : ∀ routines names, p'.register routines names = p.register routines names)

include hsame

theorem keeps_registerCallees (blocks : List f.BlockIx) :
    Keeps (Alike p before earlier (Same base)) ((job settings p f).registerCallees blocks)
      ((job settings p' f).registerCallees blocks) := by
  apply Agrees.modify
  intro s t h
  cases hfamily : settings.family.hasKernels with
  | false =>
      simp only [Program.addRoutines, hfamily]
      exact { h with routines := h.routines, closed := h.closed }
  | true =>
      simp only [Program.addRoutines, hfamily, if_true, hsame]
      have hroutines := h.closed_before.mem_register_union h.closed h.routines
      exact { h with routines := hroutines _, closed := h.closed.register _ }

theorem keeps_commitLoop (lp : f.LoopIx) (startLine : UInt32) :
    Keeps (Alike p before earlier (Same base)) ((job settings p f).commitLoop lp startLine)
      ((job settings p' f).commitLoop lp startLine) := by
  refine .bind (keeps_extract _) fun answer => ?_
  rcases answer with ⟨computation, _ | extraction⟩
  · exact .pure _
  · refine .bind (keeps_registerCallees hsame _) fun _ => .bind (keeps_merge _) fun _ => ?_
    refine .ite (fun _ => ?_) fun _ => keeps_count _ _
    exact .bind (keeps_stampNest lp _) fun _ => .pure _

theorem keeps_visitLoopOf (r : f.RegionIx) :
    Keeps (Alike p before earlier (Same base)) ((job settings p f).visitLoopOf r)
      ((job settings p' f).visitLoopOf r) := by
  rw [Job.visitLoopOf, Job.visitLoopOf]
  cases f.ownerLoop r with
  | none => exact .pure _
  | some lp =>
      refine .bind (keeps_isEligible r lp) fun eligible => ?_
      refine .ite (fun _ => ?_) fun _ => .pure _
      refine .bind (keeps_count _ _) fun _ => ?_
      cases f.startLine lp with
      | none => exact .pure _
      | some startLine => exact .bind (keeps_commitLoop hsame lp startLine) fun _ => .pure _

theorem keeps_commitRegion (id : RegionId) (lines : LineSpan) :
    Keeps (Alike p before earlier (Same base)) ((job settings p f).commitRegion id lines)
      ((job settings p' f).commitRegion id lines) := by
  refine .bind (keeps_extract _) fun answer => ?_
  rcases answer with ⟨computation, _ | extraction⟩
  · exact .pure _
  · refine .bind ?_ fun r => ?_
    · cases f.region id with
      | ok r => exact .pure _
      | error e => exact fun _ _ _ => .error
    · refine .bind (keeps_registerCallees hsame _) fun _ => .bind (keeps_merge _) fun _ => ?_
      exact .bind (keeps_writeKernels r _) fun _ => keeps_annotate _ _

-- The reduced form has just been marked on both sides, so the answer about it is the same.
theorem keeps_commitReduced (id : RegionId) :
    Keeps (Alike p before earlier (Same base)) ((job settings p f).commitReduced id)
      ((job settings p' f).commitReduced id) := by
  refine Agrees.bind (agrees_ask (agrees_analyzeReduced id)) fun _ => ?_
  refine Agrees.bind (keeps_record _) fun _ => ?_
  refine Agrees.bind (agrees_ask (agrees_reducedForm id)) fun answer => ?_
  cases answer with
  | none => exact Agrees.pure fun _ _ h => { h with facts := h.facts }
  | some reduced =>
      refine Agrees.bind (agrees_ask (keeps_isSafe reduced)) fun safe => ?_
      cases safe with
      | false => exact Agrees.pure fun _ _ h => { h with facts := h.facts.same }
      | true =>
          refine Agrees.bind (agrees_ask (agrees_isComplete reduced)) fun complete => ?_
          refine Keeps.ite (fun _ => ?_) fun _ => .pure _
          refine .bind (keeps_ask_reading fun t => lines_unmarked t f _) fun lines => ?_
          cases lines with
          | none => exact .pure _
          | some lines => exact .bind (keeps_commitRegion hsame _ lines) fun _ => .pure _

-- The region itself has to be attached: only then is it complete whatever is marked.
theorem keeps_visitRegion {r : f.RegionIx} (hr : f.isDetached r = false) :
    Keeps (Alike p before earlier (Same base)) ((job settings p f).visitRegion r)
      ((job settings p' f).visitRegion r) := by
  refine .bind (keeps_ask_reading fun t => lines_unmarked t f _) fun lines => ?_
  refine .ite (fun _ => ?_) fun _ => .pure _
  refine .bind (keeps_ask_reading fun t => isSafelyNested_unmarked t f _) fun nested => ?_
  refine .ite (fun _ => ?_) fun _ => .pure _
  cases lines with
  | none => exact .pure _
  | some lines =>
      have hreduced : Keeps (Alike p before earlier (Same base))
          (do return !(← (job settings p f).commitReduced (f.regionId r)))
          (do return !(← (job settings p' f).commitReduced (f.regionId r))) :=
        .bind (keeps_commitReduced hsame _) fun _ => .pure _
      refine .bind (keeps_ask_reading fun t => isComplete_unmarked hr) fun complete => ?_
      refine .ite (fun _ => ?_) fun _ => hreduced
      refine .bind (keeps_ask_returning fun t => isSafe_unmarked t f _) fun safe => ?_
      refine .ite (fun _ => ?_) fun _ => hreduced
      exact .bind (keeps_commitRegion hsame _ lines) fun _ => .pure _

theorem keeps_walkFrom {root : f.RegionIx} (hroot : f.isDetached root = false) :
    Keeps (Alike p before earlier (Same base)) ((job settings p f).walkFrom root)
      ((job settings p' f).walkFrom root) := by
  have hchildren (r : f.RegionIx) (hr : f.isDetached r = false) (c : f.RegionIx)
      (hc : c ∈ f.regions.nesting.children r) : f.isDetached c = false :=
    Function.attached_of_mem_children hr hc
  have hpending (r : f.RegionIx) (hr : r ∈ [root]) : f.isDetached r = false :=
    List.mem_singleton.mp hr ▸ hroot
  refine .ite (fun _ => ?_) fun _ => ?_
  · exact .walk _ (fun r hr => keeps_visitRegion hsame hr) hchildren [root] hpending
  · exact .walk _ (fun r _ => keeps_visitLoopOf hsame r) hchildren [root] hpending

omit hsame in
theorem keeps_countLoops :
    Keeps (Alike p before earlier (Same base)) (job settings p f).countLoops
      (job settings p' f).countLoops := by
  refine .bind (.forM fun _ _ => keeps_count _ _) fun _ => .forM fun lp _ => ?_
  refine .bind (agrees_ask (keeps_isAnalyzable lp)) fun analyzable => ?_
  exact .ite (fun _ => keeps_count _ _) fun _ => .pure _

theorem keeps_annotateBody :
    Keeps (Alike p before earlier (Same base)) (job settings p f).annotateBody
      (job settings p' f).annotateBody := by
  refine .bind keeps_countLoops fun _ => .ite (fun _ => ?_) fun _ => .pure _
  exact keeps_walkFrom hsame (Function.attached_startRegion f)

variable (settings) in
theorem agrees_annotate (f : Function) :
    Agrees (fun s t => Alike p before earlier (Same base) { toShared := s } { toShared := t })
      (job settings p f).annotate (job settings p' f).annotate fun _ s t =>
        Alike p before earlier (Same base) { toShared := s } { toShared := t } := by
  intro s t h
  have hkeeps : Keeps (Alike p before earlier (Same base)) (job settings p f).annotateBody
      (job settings p' f).annotateBody := keeps_annotateBody hsame
  have hbody := hkeeps _ _ h
  rw [Job.annotate, Job.annotate]
  by_cases hdecl : f.isDeclaration
  · rw [if_pos hdecl, if_pos hdecl]
    exact .ok h
  · rw [if_neg hdecl, if_neg hdecl]
    generalize (job settings p f).annotateBody _ = u at hbody ⊢
    generalize (job settings p' f).annotateBody _ = v at hbody ⊢
    cases hbody with
    | @ok _ s t h =>
        show SameOutcome _ (.ok s.annotations s.toShared) (.ok t.annotations t.toShared)
        rw [h.annotations]
        exact .ok { h with annotations := rfl, computations := rfl }
    | error => exact .error

end Visits

end FactTable

end LoopPragma
