import LoopPragma.Proofs.Placement.Gates
import LoopPragma.Proofs.Placement.LoopVisits

namespace LoopPragma

open Place

namespace FactTable

variable (settings : Settings) (t : FactTable) {f : Function}

def asksReduced (r : f.RegionIx) : Bool :=
  t.passesGates settings r && (t.linesOf f r).isSome &&
    !(t.isBounded f r && t.isSafe f (f.regionId r))

variable (f) in
-- Whether the reduced form of a region is committed in its place. One that stands for no region is
-- a fault, unless it is turned down.
def commitsReduced (id : RegionId) : Except Fault Bool :=
  match t.reducedForm f id with
  | none => .ok false
  | some x =>
    if t.turnsDown f x then .ok false else (f.region x).map fun i => (t.linesOf f i).isSome

-- Whether the walk goes on below a region, read off the tables alone: whatever was marked, written
-- or registered before.
def course (r : f.RegionIx) : Except Fault Bool :=
  if t.passesGates settings r && (t.linesOf f r).isSome then
    if t.isBounded f r && t.isSafe f (f.regionId r) then .ok false
    else do return !(← t.commitsReduced f (f.regionId r))
  else .ok true

variable {settings t} {p : Program}

section Visits

variable {s : Progress FactTable}

def noted (f : Function) (id : RegionId) (s : Progress FactTable) : Progress FactTable :=
  { s with state := s.state.analyzeReduced f id, events := s.events.push (.analyzed id) }

theorem ask_reading_eq {α : Type} {answer : FactTable → Except Fault α} {a : α}
    (h : answer s.state = .ok a) : ask (reading answer) s = .ok a s := by
  rw [ask, reading, h]
  rfl

variable (hs : s.state.unmarked = t.unmarked)

include hs

-- Behind the questions about a reduced form: what is not turned down has to stand for a region.
theorem commitForm_eq {id x : RegionId} (hform : t.reducedForm f id = some x)
    (commit : Place FactTable Bool) :
    (do
      unless ← ask (analyses.isSafe f x) do return false
      unless ← ask (analyses.isComplete f x) do return false
      commit : Place FactTable Bool) (noted f id s) =
      if t.turnsDown f x then .ok false (noted f id s)
      else match f.region x with
        | .error e => .error e (noted f id s)
        | .ok _ => commit (noted f id s) := by
  have hnoted : (noted f id s).state.unmarked = t.unmarked :=
    (unmarked_analyzeReduced _ _ _).trans hs
  have hsafe : ask (analyses.isSafe f x) (noted f id s) = .ok (t.isSafe f x) (noted f id s) := by
    rw [← isSafe_of_unmarked hnoted]
    rfl
  have hcomplete : ask (analyses.isComplete f x) (noted f id s) =
      ask (reading fun _ => if (t.factsOf f).any fun facts => x ∈ facts.incomplete then .ok false
        else (f.region x).map fun _ => true) (noted f id s) := by
    rw [← isComplete_of_analyzeReduced hs hform]
    rfl
  rw [bind_of_ok hsafe, turnsDown]
  cases t.isSafe f x with
  | false => rfl
  | true =>
      simp only [if_true, Bool.not_true, Bool.false_or, bind, EStateM.bind, hcomplete]
      cases (t.factsOf f).any fun facts => x ∈ facts.incomplete with
      | true => rfl
      | false => cases f.region x <;> rfl

theorem commitReduced_eq (id : RegionId) : (job settings p f).commitReduced id s =
    match t.reducedForm f id with
    | none => .ok false (noted f id s)
    | some x =>
      if t.turnsDown f x then .ok false (noted f id s)
      else match f.region x with
        | .error e => .error e (noted f id s)
        | .ok i => match t.linesOf f i with
          | none => .ok false (noted f id s)
          | some lines =>
            (do (job settings p f).commitRegion x lines; return true) (noted f id s) := by
  have hnoted : (noted f id s).state.unmarked = t.unmarked :=
    (unmarked_analyzeReduced _ _ _).trans hs
  have hform : ask (analyses.reducedForm f id) (noted f id s) =
      .ok (t.reducedForm f id) (noted f id s) := by
    rw [← reducedForm_of_unmarked hnoted]
    rfl
  have hanalyze : ask (analyses.analyzeReduced f id) s =
      .ok () { s with state := s.state.analyzeReduced f id } := rfl
  have hrecord : record (.analyzed id) { s with state := s.state.analyzeReduced f id } =
      .ok () (noted f id s) := rfl
  rw [Job.commitReduced, bind_of_ok hanalyze, bind_of_ok hrecord, bind_of_ok hform]
  cases hx : t.reducedForm f id with
  | none => rfl
  | some x =>
      refine (commitForm_eq hs hx _).trans ?_
      dsimp only
      cases hregion : f.region x with
      | error e => rfl
      | ok i =>
          obtain rfl := Function.region_eq_ok_iff.mp hregion
          have hlines : ask (analyses.lines f (f.regionId i)) (noted f id s) =
              .ok (t.linesOf f i) (noted f id s) := ask_reading_eq (lines_of_unmarked hnoted i)
          dsimp only
          rw [bind_of_ok hlines]
          cases t.linesOf f i <;> rfl

theorem visitRegion_eq {r : f.RegionIx} (hr : f.isDetached r = false) :
    (job settings p f).visitRegion r s =
      if t.passesGates settings r then
        match t.linesOf f r with
        | none => .ok true s
        | some lines =>
          if t.isBounded f r && t.isSafe f (f.regionId r) then
            (do (job settings p f).commitRegion (f.regionId r) lines; return false) s
          else (do return !(← (job settings p f).commitReduced (f.regionId r))) s
      else .ok true s := by
  have hlines : ask (analyses.lines f (f.regionId r)) s = .ok (t.linesOf f r) s :=
    ask_reading_eq (lines_of_unmarked hs r)
  have hnested : ask (analyses.isSafelyNested f (f.regionId r)) s = .ok (t.nestsSafely f r) s :=
    ask_reading_eq (isSafelyNested_of_unmarked hs r)
  have hcomplete : ask (analyses.isComplete f (f.regionId r)) s = .ok (t.isBounded f r) s :=
    ask_reading_eq (isComplete_of_unmarked hs hr)
  have hsafe : ask (analyses.isSafe f (f.regionId r)) s = .ok (t.isSafe f (f.regionId r)) s := by
    rw [← isSafe_of_unmarked hs]
    rfl
  rw [Job.visitRegion, bind_of_ok hlines, passesGates]
  cases f.isCoalescible settings r with
  | false => rfl
  | true =>
      rw [if_pos rfl, bind_of_ok hnested]
      cases t.nestsSafely f r with
      | false => rfl
      | true =>
          cases t.linesOf f r with
          | none => rfl
          | some lines =>
              simp only [if_true, Bool.and_self]
              rw [bind_of_ok hcomplete]
              cases t.isBounded f r with
              | false => rfl
              | true =>
                  rw [if_pos rfl, bind_of_ok hsafe, Bool.true_and]
                  cases t.isSafe f (f.regionId r) with
                  | true => rfl
                  | false => rfl

end Visits

def SameFacts (t : FactTable) (s : Progress FactTable) : Prop := s.state.unmarked = t.unmarked

theorem triple_of_marks {α : Type} {x : Place FactTable α} {marks : List (UInt32 × String)}
    {fault : Progress FactTable → Prop} (h : Job.Marks x marks) :
    Triple (SameFacts t) x (fun _ => SameFacts t) fault := by
  intro s hs
  obtain ⟨a, u, hrun, hwrote⟩ := h s
  rw [hrun]
  exact .ok ((congrArg unmarked hwrote.state).trans hs)

theorem triple_commitRegion (r : f.RegionIx) (lines : LineSpan) :
    Triple (SameFacts t) ((job settings p f).commitRegion (f.regionId r) lines)
      (fun _ => SameFacts t) fun _ => False := by
  have hextract : Triple (SameFacts t) ((job settings p f).extract (.region (f.regionId r) lines))
      (fun _ => SameFacts t) fun _ => False := fun _ hs => .ok hs
  refine Triple.bind hextract fun answer => ?_
  rcases answer with ⟨computation, _ | extraction⟩
  · exact Triple.pure fun _ hs => hs
  · have hregion : Triple (SameFacts t) (ofExcept (f.region (f.regionId r)) : Place FactTable _)
        (fun _ => SameFacts t) fun _ => False := by
      rw [f.region_regionId]
      exact Triple.pure fun _ hs => hs
    refine Triple.bind hregion fun i => ?_
    have hchange {change : Progress FactTable → Progress FactTable}
        (h : ∀ s, (change s).state = s.state) : Triple (SameFacts t)
          (modify change : Place FactTable PUnit) (fun _ => SameFacts t) fun _ => False :=
      Triple.modify fun s hs => (congrArg unmarked (h s)).trans hs
    refine Triple.bind (hchange fun _ => rfl) fun _ => ?_
    refine Triple.bind (hchange fun _ => rfl) fun _ => ?_
    refine Triple.bind (triple_of_marks (Job.marks_writeKernels i _)) fun _ => ?_
    exact triple_of_marks (Job.marks_annotate _ _)

theorem follows_commitReduced (id : RegionId) :
    Follows (SameFacts t) ((job settings p f).commitReduced id) (t.commitsReduced f id) := by
  intro s hs
  have hnoted : SameFacts t (noted f id s) := (unmarked_analyzeReduced _ _ _).trans hs
  rw [commitReduced_eq hs, commitsReduced]
  cases t.reducedForm f id with
  | none => exact ⟨_, rfl, hnoted⟩
  | some x =>
      dsimp only
      cases t.turnsDown f x with
      | true => exact ⟨_, rfl, hnoted⟩
      | false =>
          cases hregion : f.region x with
          | error e => exact ⟨_, rfl⟩
          | ok i =>
              obtain rfl := Function.region_eq_ok_iff.mp hregion
              simp only [Bool.false_eq_true, if_false, Except.map]
              cases t.linesOf f i with
              | none => exact ⟨_, rfl, hnoted⟩
              | some lines =>
                  obtain ⟨_, u, hrun, hu⟩ := (triple_commitRegion (p := p) i lines).exists_ok hnoted
                  dsimp only
                  rw [bind_of_ok hrun]
                  exact ⟨u, rfl, hu⟩

theorem follows_visitRegion {r : f.RegionIx} (hr : f.isDetached r = false) :
    Follows (SameFacts t) ((job settings p f).visitRegion r) (t.course settings r) := by
  intro s hs
  rw [visitRegion_eq hs hr, course]
  cases t.passesGates settings r with
  | false => exact ⟨s, rfl, hs⟩
  | true =>
      cases t.linesOf f r with
      | none => exact ⟨s, rfl, hs⟩
      | some lines =>
          simp only [if_true, Bool.true_and, Option.isSome_some]
          cases t.isBounded f r && t.isSafe f (f.regionId r) with
          | true =>
              obtain ⟨_, u, hrun, hu⟩ := (triple_commitRegion (p := p) r lines).exists_ok hs
              rw [if_pos rfl, bind_of_ok hrun]
              exact ⟨u, rfl, hu⟩
          | false => exact (follows_commitReduced _).bind (fun _ => .pure _) s hs

theorem follows_offloadRegions {root : f.RegionIx} (hroot : f.isDetached root = false) :
    Follows (SameFacts t) ((job settings p f).offloadRegions root)
      (f.regions.nesting.walk (t.course settings) [root]) := by
  refine .walk _ (fun r hr => follows_visitRegion hr)
    (fun r hr c hc => Function.attached_of_mem_children hr hc) [root] fun r hr => ?_
  rw [List.mem_singleton.mp hr]
  exact hroot

theorem triple_countLoops :
    Triple (SameFacts t) (job settings p f).countLoops (fun _ => SameFacts t) fun _ => False := by
  have hcount (counter : Counter) (amount : Nat) : Triple (SameFacts t)
      (count counter amount : Place FactTable Unit) (fun _ => SameFacts t) fun _ => False :=
    Triple.modify fun _ hs => hs
  refine Triple.bind (Triple.forM fun _ _ => hcount _ _) fun _ => Triple.forM fun lp _ => ?_
  have hask : Triple (SameFacts t) (ask (analyses.isAnalyzable f lp)) (fun _ => SameFacts t)
      fun _ => False := by
    intro s hs
    rw [ask, isAnalyzable_eq]
    exact .ok hs
  exact Triple.bind hask fun _ => .ite (fun _ => hcount _ _) fun _ => .pure fun _ hs => hs

theorem triple_markLoops (root : f.RegionIx) :
    Triple (SameFacts t) ((job settings p f).markLoops root) (fun _ => SameFacts t)
      fun _ => False := by
  refine .walk _ (fun r s hs => ?_) [root]
  cases hstops : s.state.stops settings f r with
  | false =>
      rw [visitLoopOf_of_not_stops hstops]
      exact .ok hs
  | true =>
      obtain ⟨lp, hlp, -⟩ : ∃ lp, f.ownerLoop r = some lp ∧ _ := by
        simpa [stops, Option.any_eq_true] using hstops
      obtain ⟨u, hrun, hturned⟩ := visitLoopOf_of_stops (p := p) hstops hlp
      rw [hrun]
      exact .ok ((congrArg unmarked hturned.state).trans hs)

variable (settings t f) in
def bodyCourse : Except Fault Unit :=
  if settings.coalesce then f.regions.nesting.walk (t.course settings) [f.startRegion] else .ok ()

theorem follows_annotateBody :
    Follows (SameFacts t) (job settings p f).annotateBody (t.bodyCourse settings f) := by
  have hcount : Follows (SameFacts t) (job settings p f).countLoops (.ok ()) :=
    .of_triple triple_countLoops
  have hwalk : Follows (SameFacts t)
      (if (job settings p f).isWorthWalking f.startRegion then
        (job settings p f).walkFrom f.startRegion else pure ()) (t.bodyCourse settings f) := by
    rw [Job.isWorthWalking, Job.walkFrom, bodyCourse]
    cases settings.coalesce with
    | true => exact follows_offloadRegions f.attached_startRegion
    | false =>
        simp only [Bool.false_or, Bool.false_eq_true, if_false]
        split
        · exact .of_triple (triple_markLoops _)
        · exact .pure _
  exact hcount.bind fun _ => hwalk

end FactTable

end LoopPragma
