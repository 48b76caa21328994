import LoopPragma.Proofs.Placement.Disjointness
import LoopPragma.Proofs.Placement.KernelSearch
import LoopPragma.Proofs.Placement.Survey

namespace LoopPragma

open Counts Place

def Event.succeeded : Event → Bool
  | .extracted _ _ (some _) => true
  | _ => false

namespace Job

variable {σ : Type} {j : Job σ} {quiet : Counter → Prop} {s : Progress σ}

section Attempts

-- Since `s` there were only events, and none that says anything of some counters.
structure Untraced (quiet : Counter → Prop) (s u : Progress σ) : Prop where
  events : s.events.toList <+: u.events.toList
  annotations : u.annotations = s.annotations
  routines : u.routines = s.routines
  totals : ∀ counter, quiet counter →
    total counter u.events.toList = total counter s.events.toList

def Succeeded (s u : Progress σ) : Prop :=
  ∃ run, u.events.toList = s.events.toList ++ run ∧ ∃ event ∈ run, event.succeeded

def Attempted (quiet : Counter → Prop) (s u : Progress σ) : Prop :=
  Succeeded s u ∨ Untraced quiet s u

theorem Untraced.refl (quiet : Counter → Prop) (s : Progress σ) : Untraced quiet s s where
  events := List.prefix_rfl
  annotations := rfl
  routines := rfl
  totals _ _ := rfl

theorem Untraced.push {u : Progress σ} (h : Untraced quiet s u) {event : Event}
    (hevent : ∀ counter, quiet counter → event.amount counter = 0) :
    Untraced quiet s { u with events := u.events.push event } where
  events := by
    rw [Array.toList_push]
    exact h.events.trans (List.prefix_append _ _)
  annotations := h.annotations
  routines := h.routines
  totals counter hquiet := by
    rw [Array.toList_push, total_append, total_singleton, hevent counter hquiet, Nat.add_zero,
      h.totals counter hquiet]

theorem Succeeded.push {u : Progress σ} (h : Succeeded s u) (event : Event) :
    Succeeded s { u with events := u.events.push event } := by
  obtain ⟨run, hrun, found, hfound, hsucceeded⟩ := h
  exact ⟨run ++ [event], by simp [hrun], found, List.mem_append_left _ hfound, hsucceeded⟩

theorem Attempted.push {u : Progress σ} (h : Attempted quiet s u) {event : Event}
    (hevent : ∀ counter, quiet counter → event.amount counter = 0) :
    Attempted quiet s { u with events := u.events.push event } :=
  h.imp (fun h => h.push event) fun h => h.push hevent

theorem Attempted.exists_events {u : Progress σ} (h : Attempted quiet s u) :
    ∃ run, u.events.toList = s.events.toList ++ run := by
  rcases h with ⟨run, hrun, -⟩ | h
  · exact ⟨run, hrun⟩
  · obtain ⟨run, hrun⟩ := h.events
    exact ⟨run, hrun.symm⟩

theorem Attempted.succeed {u : Progress σ} (h : Attempted quiet s u) {event : Event}
    (hevent : event.succeeded) : Succeeded s { u with events := u.events.push event } := by
  obtain ⟨run, hrun⟩ := h.exists_events
  exact ⟨run ++ [event], by simp [hrun], event, by simp, hevent⟩

theorem attempted_of_or {u : Progress σ} (h : Succeeded s u ∨ Attempted quiet s u) :
    Attempted quiet s u :=
  h.elim Or.inl id

theorem ignoresOutput_succeeded : IgnoresOutput (Succeeded s) where
  counted _ _ _ _ h := h.push _
  annotated _ _ h := h
  registered _ _ h := h

theorem maintains_attempted_ask {α : Type} (q : Consult σ α) :
    Maintains (Attempted quiet s) (ask q) :=
  Triple.ask (fun _ h _ _ _ => h.imp_right fun h => ⟨h.events, h.annotations, h.routines, h.totals⟩)
    fun _ h _ => h.imp_right fun h => ⟨h.events, h.annotations, h.routines, h.totals⟩

theorem triple_attempted_extract (target : Target) :
    Triple (Attempted quiet s) (j.extract target)
      (fun answer u => if answer.2.isSome then Succeeded s u else Attempted quiet s u)
      fun u => Succeeded s u ∨ Attempted quiet s u := by
  have hname : Maintains (Attempted quiet s) freshName := Triple.modifyGet fun _ h =>
    h.imp_right fun h => ⟨h.events, h.annotations, h.routines, h.totals⟩
  refine .bind (hname.triple fun _ => Or.inr) fun computation => ?_
  refine .bind ((maintains_attempted_ask _).triple fun _ => Or.inr) fun result => ?_
  have hrecord (request : ExtractRequest) : Triple (Attempted quiet s)
      (record (.extracted target request result))
      (fun _ u => if result.isSome then Succeeded s u else Attempted quiet s u)
      fun u => Succeeded s u ∨ Attempted quiet s u := by
    refine Triple.modify fun u h => ?_
    cases result with
    | none => exact h.push fun _ _ => rfl
    | some extraction => exact h.succeed rfl
  exact .bind (hrecord _) fun _ => .pure fun _ h => h

theorem maintains_attempted_commitRegion (id : RegionId) (lines : LineSpan) :
    Maintains (Attempted quiet s) (j.commitRegion id lines) :=
  (ignoresOutput_succeeded.commitRegion_of_answer (triple_attempted_extract _)).mono
    (fun _ h => h) (fun _ _ => attempted_of_or) fun _ => attempted_of_or

theorem maintains_attempted_commitLoop (lp : j.function.LoopIx) (startLine : UInt32) :
    Maintains (Attempted quiet s) (j.commitLoop lp startLine) :=
  (ignoresOutput_succeeded.commitLoop_of_answer (triple_attempted_extract _)).mono
    (fun _ h => h) (fun _ _ => attempted_of_or) fun _ => attempted_of_or

theorem questions_attempted : j.Questions (Attempted quiet s) where
  isComplete _ := maintains_attempted_ask _
  analyzeReduced _ := maintains_attempted_ask _
  reducedForm _ := maintains_attempted_ask _
  isSafe _ := maintains_attempted_ask _
  lines _ := maintains_attempted_ask _
  isSafelyNested _ := maintains_attempted_ask _
  analyzed _ := Triple.modify fun _ h => h.push fun _ _ => rfl

theorem inspection_attempted : j.Inspection (Attempted (· ≠ .analyzableLoops) s) where
  toQuestions := questions_attempted
  countNest _ := Triple.modify fun _ h => h.push fun _ hne => if_neg (Ne.symm hne)

theorem Attempted.exists_run {u : Progress σ} (h : Attempted quiet s u) :
    ∃ run, u.events.toList = s.events.toList ++ run ∧
      ((∀ event ∈ run, event.succeeded = false) →
        u.annotations = s.annotations ∧ u.routines = s.routines ∧
          ∀ counter, quiet counter →
            (ofEvents u.events.toList).get counter = (ofEvents s.events.toList).get counter) := by
  rcases h with ⟨run, hrun, event, hevent, hsucceeded⟩ | h
  · refine ⟨run, hrun, fun hfailed => ?_⟩
    rw [hfailed event hevent] at hsucceeded
    cases hsucceeded
  · obtain ⟨run, hrun⟩ := h.events
    refine ⟨run, hrun.symm, fun _ => ⟨h.annotations, h.routines, fun counter hquiet => ?_⟩⟩
    apply UInt64.toNat_inj.mp
    rw [toNat_get_ofEvents, toNat_get_ofEvents, h.totals counter hquiet]

end Attempts

section Tests

variable {r : j.function.RegionIx} {lp : j.function.LoopIx}

-- Whether a loop that owns a region passes the tests, asked in a state of the analyses.
def Passes (j : Job σ) (r : j.function.RegionIx) (lp : j.function.LoopIx) (state : σ) : Prop :=
  (j.settings.emitParallel → j.function.isParallel j.settings lp) ∧
    ∃ u v, j.analyses.isAnalyzable j.function lp state = .ok true u ∧
      j.analyses.isSafelyNested j.function (j.function.regionId r) u = .ok true v

theorem isEligible_of_passes (h : j.Passes r lp s.state) :
    ∃ state, j.isEligible r lp s = .ok true { s with state } := by
  obtain ⟨hparallel, u, v, hanalyzable, hnested⟩ := h
  have hmode : ¬(j.settings.emitParallel && !j.function.isParallel j.settings lp) := by
    simpa using hparallel
  refine ⟨v, ?_⟩
  rw [isEligible, if_neg hmode]
  simp [Bind.bind, EStateM.bind, ask, hanalyzable, hnested]

theorem triple_isEligible_of_not_passes (h : ¬j.Passes r lp s.state) :
    Triple (· = s) (j.isEligible r lp) (fun eligible u => u.events = s.events ∧ eligible = false)
      fun u => u.events = s.events := by
  refine .ite (fun _ => .pure ?_) fun hmode => ?_
  · rintro _ rfl
    exact ⟨rfl, rfl⟩
  · have hparallel : j.settings.emitParallel → j.function.isParallel j.settings lp := by
      simpa using hmode
    have hanalyzable : Triple (· = s) (ask (j.analyses.isAnalyzable j.function lp))
        (fun answer u => u.events = s.events ∧
          j.analyses.isAnalyzable j.function lp s.state = .ok answer u.state)
        fun u => u.events = s.events := by
      refine Triple.ask ?_ ?_
      · rintro _ rfl answer state hanswer
        exact ⟨rfl, hanswer⟩
      · rintro _ rfl _
        rfl
    refine .bind hanalyzable fun analyzable => .ite (fun hyes => ?_) fun _ => ?_
    · refine Triple.ask (fun u hu nested state hnested => ⟨hu.1, ?_⟩) fun _ hu _ => hu.1
      by_contra hne
      rw [Bool.not_eq_false] at hne
      exact h ⟨hparallel, u.state, state, hyes ▸ hu.2, hne ▸ hnested⟩
    · exact .pure fun _ hu => ⟨hu.1, rfl⟩

theorem maintains_analyzable_commitLoop {k : Nat} (startLine : UInt32) :
    Maintains (fun u => total .analyzableLoops u.events.toList = k) (j.commitLoop lp startLine) :=
  ignoresMarking_analyzable.commitLoop_of_triple (maintains_total_extract _)

-- The nest of a loop that passes is counted, and nothing after it counts a loop as analyzable.
theorem triple_analyzable_of_passes {k : Nat} (howner : j.function.ownerLoop r = some lp)
    (h : j.Passes r lp s.state)
    (hk : total .analyzableLoops s.events.toList + (j.function.nest lp).length = k) :
    Triple (· = s) (j.visitLoopOf r) (fun _ u => total .analyzableLoops u.events.toList = k)
      fun u => total .analyzableLoops u.events.toList = k := by
  obtain ⟨state, hrun⟩ := isEligible_of_passes h
  have heligible : Triple (· = s) (j.isEligible r lp)
      (fun eligible u => u.events = s.events ∧ eligible = true)
      fun u => total .analyzableLoops u.events.toList = k := by
    rintro _ rfl
    rw [hrun]
    exact .ok ⟨rfl, rfl⟩
  have hamount : (UInt64.ofNat (j.function.nest lp).length).toNat = (j.function.nest lp).length :=
    UInt64.toNat_ofNat_of_lt' (length_nest_lt lp)
  rw [visitLoopOf, howner]
  refine .bind heligible fun eligible => .of_fact ?_
  rintro rfl
  have hcount : Triple (fun u : Progress σ => u.events = s.events)
      (j.countNest .analyzableLoops lp) (fun _ u => total .analyzableLoops u.events.toList = k)
      fun u => total .analyzableLoops u.events.toList = k := by
    refine Triple.modify fun u hu => ?_
    rw [Array.toList_push, total_append, total_singleton, hu, Event.amount, if_pos rfl, hamount, hk]
  refine .bind hcount fun _ => ?_
  cases j.function.startLine lp with
  | none => exact .pure fun _ hu => hu
  | some startLine =>
      exact .bind (maintains_analyzable_commitLoop startLine) fun _ => .pure fun _ hu => hu

theorem triple_analyzable_of_not_passes
    (h : ∀ lp, j.function.ownerLoop r = some lp → ¬j.Passes r lp s.state) :
    Triple (· = s) (j.visitLoopOf r) (fun _ u => u.events = s.events)
      fun u => u.events = s.events := by
  rw [visitLoopOf]
  cases howner : j.function.ownerLoop r with
  | none =>
      refine .pure ?_
      rintro _ rfl
      rfl
  | some lp =>
      refine .bind (triple_isEligible_of_not_passes (h lp howner)) fun eligible => .of_fact ?_
      rintro rfl
      exact .pure fun _ hu => hu

end Tests

-- A visit without a successful extraction leaves no trace but events: none at all of a region, and
-- none of a loop but that its nest was found analyzable, which depends on the tests alone. So where
-- no extraction succeeds a whole walk leaves no text and registers nothing.
theorem failed_attempts_leave_no_trace (j : Job σ) (r : j.function.RegionIx) :
    (∀ s : Progress σ, let after := (j.visitRegion r).after s
      ∃ run, after.events.toList = s.events.toList ++ run ∧
        ((∀ event ∈ run, event.succeeded = false) →
          after.annotations = s.annotations ∧ after.routines = s.routines ∧
          ofEvents after.events.toList = ofEvents s.events.toList)) ∧
    (∀ s : Progress σ, let after := (j.visitLoopOf r).after s
      ∃ run, after.events.toList = s.events.toList ++ run ∧
        ((∀ event ∈ run, event.succeeded = false) →
          after.annotations = s.annotations ∧ after.routines = s.routines ∧
          ∀ counter, counter ≠ .analyzableLoops →
            (ofEvents after.events.toList).get counter =
              (ofEvents s.events.toList).get counter) ∧
        (∀ lp, j.function.ownerLoop r = some lp → j.Passes r lp s.state →
          (ofEvents after.events.toList).get .analyzableLoops =
            saturatingAdd ((ofEvents s.events.toList).get .analyzableLoops)
              (.ofNat (j.function.nest lp).length)) ∧
        ((∀ lp, j.function.ownerLoop r = some lp → ¬j.Passes r lp s.state) →
          (ofEvents after.events.toList).get .analyzableLoops =
            (ofEvents s.events.toList).get .analyzableLoops)) ∧
    ∀ shared : Shared σ, let after := (j.walkFrom r).after { toShared := shared }
      ∃ run, after.events.toList = shared.events.toList ++ run ∧
        ((∀ event ∈ run, event.succeeded = false) →
          after.annotations = ∅ ∧ after.routines = shared.routines) := by
  refine ⟨fun s => ?_, fun s => ?_, fun shared => ?_⟩
  · have hvisit : Maintains (Attempted (fun _ => True) s) (j.visitRegion r) :=
      questions_attempted.visitRegion
        (fun id lines _ => maintains_attempted_commitRegion id lines) r
    have hafter := after_of_maintains hvisit (Or.inr (.refl _ s))
    obtain ⟨run, hrun, hfailed⟩ := hafter.exists_run
    refine ⟨run, hrun, fun h => ?_⟩
    obtain ⟨hannotations, hroutines, hcounts⟩ := hfailed h
    exact ⟨hannotations, hroutines, Counts.ext_get fun counter => hcounts counter trivial⟩
  · have hvisit : Maintains (Attempted (· ≠ .analyzableLoops) s) (j.visitLoopOf r) :=
      inspection_attempted.visitLoopOf maintains_attempted_commitLoop r
    have hafter := after_of_maintains hvisit (Or.inr (.refl _ s))
    obtain ⟨run, hrun, hfailed⟩ := hafter.exists_run
    refine ⟨run, hrun, hfailed, fun lp howner hpasses => ?_, fun hnot => ?_⟩
    · have htotal := after_of_triple (triple_analyzable_of_passes howner hpasses rfl) rfl
      exact get_ofEvents_of_total htotal (length_nest_lt lp)
    · have hevents := after_of_triple (triple_analyzable_of_not_passes hnot) rfl
      rw [hevents]
  · have hwalk : Maintains (Attempted (· ≠ .analyzableLoops) { toShared := shared })
        (j.walkFrom r) :=
      inspection_attempted.walkFrom (fun id lines _ => maintains_attempted_commitRegion id lines)
        maintains_attempted_commitLoop r
    have hafter := after_of_maintains hwalk (Or.inr (.refl _ _))
    obtain ⟨run, hrun, hfailed⟩ := hafter.exists_run
    refine ⟨run, hrun, fun h => ?_⟩
    obtain ⟨hannotations, hroutines, -⟩ := hfailed h
    exact ⟨hannotations, hroutines⟩

end Job

namespace FactTable

theorem passes_iff {settings : Settings} {p : Program} {f : Function} {t : FactTable}
    {r : f.RegionIx} {lp : f.LoopIx} :
    (job settings p f).Passes r lp t ↔ (settings.emitParallel → f.isParallel settings lp) ∧
      t.isAnalyzable f lp ∧ t.nestsSafely f r := by
  have hnested : analyses.isSafelyNested f (f.regionId r) t = .ok (t.nestsSafely f r) t := by
    show ofExcept (t.isSafelyNested f (f.regionId r)) t = _
    rw [isSafelyNested_regionId]
    rfl
  refine and_congr_right fun _ => ⟨?_, fun ⟨hanalyzable, hsafe⟩ => ⟨t, t, ?_, ?_⟩⟩
  · rintro ⟨u, v, hanalyzable, hsafe⟩
    rw [isAnalyzable_eq] at hanalyzable
    injection hanalyzable with hyes hstate
    rw [← hstate, hnested] at hsafe
    injection hsafe with hsafe
    exact ⟨hyes, hsafe⟩
  · rw [isAnalyzable_eq, hanalyzable]
  · rw [hnested, hsafe]

-- The tables know of no extraction. The first loop is asked for in vain, by its region and as a
-- loop.
theorem twoLoops_attempted_in_vain :
    let j := job { coalesce := true } ⟨[twoLoops], by decide⟩ twoLoops
    let r : twoLoops.RegionIx := ⟨1, by decide +kernel⟩
    let s : Progress FactTable :=
      { state := {}, annotations := .ofList [(5, "int i;\n")], computations := 2 }
    let region := (j.visitRegion r).after s
    let loop := (j.visitLoopOf r).after s
    let walk := (j.walkFrom twoLoops.regions.top).after { state := {} }
    region.events.size = 1 ∧ region.annotations = s.annotations ∧ region.routines = s.routines ∧
      ofEvents region.events.toList = {} ∧
      loop.events.size = 2 ∧ loop.annotations = s.annotations ∧ loop.routines = s.routines ∧
      (ofEvents loop.events.toList).get .analyzableLoops = 1 ∧
      (ofEvents loop.events.toList).get .annotatedLoops = 0 ∧
      walk.events.size = 1 ∧ walk.annotations = ∅ ∧ walk.routines = ∅ := by
  intro j r s region loop walk
  have hregion : ∀ event ∈ region.events.toList, event.succeeded = false := by decide +kernel
  have hloop : ∀ event ∈ loop.events.toList, event.succeeded = false := by decide +kernel
  have hwalk : ∀ event ∈ walk.events.toList, event.succeeded = false := by decide +kernel
  obtain ⟨hvisit, hloops, -⟩ := Job.failed_attempts_leave_no_trace j r
  obtain ⟨run, hrun, hfailed⟩ := hvisit s
  obtain ⟨hannotations, hroutines, hcounts⟩ :=
    hfailed fun event he => hregion event (hrun ▸ List.mem_append_right _ he)
  obtain ⟨run', hrun', hfailed', hpassed, -⟩ := hloops s
  obtain ⟨hannotations', hroutines', hcounts'⟩ :=
    hfailed' fun event he => hloop event (hrun' ▸ List.mem_append_right _ he)
  have hpasses : j.Passes r ⟨0, by decide +kernel⟩ s.state := passes_iff.mpr (by decide +kernel)
  have hanalyzable := hpassed ⟨0, by decide +kernel⟩ (by decide +kernel) hpasses
  obtain ⟨-, -, hwalks⟩ := Job.failed_attempts_leave_no_trace j twoLoops.regions.top
  obtain ⟨run'', hrun'', hfailed''⟩ := hwalks { state := {} }
  obtain ⟨hannotations'', hroutines''⟩ :=
    hfailed'' fun event he => hwalk event (hrun'' ▸ List.mem_append_right _ he)
  refine ⟨by decide +kernel, hannotations, hroutines, hcounts, by decide +kernel, hannotations',
    hroutines', hanalyzable.trans (by decide +kernel), hcounts' _ nofun, by decide +kernel,
    hannotations'', hroutines''⟩

end FactTable

end LoopPragma
