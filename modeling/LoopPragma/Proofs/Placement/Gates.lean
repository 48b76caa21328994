import LoopPragma.Proofs.Facts.Answers
import LoopPragma.Proofs.Placement.Carryover
import LoopPragma.Proofs.Placement.Replay
import LoopPragma.Proofs.Placement.Writing

namespace LoopPragma

open Place

def committed (events : List Event) : List RegionId :=
  events.filterMap fun
    | .extracted (.region id _) _ (some _) => some id
    | _ => none

@[simp] theorem committed_append (before after : List Event) :
    committed (before ++ after) = committed before ++ committed after := List.filterMap_append

namespace FactTable

variable {settings : Settings} {p : Program} {f : Function} {t : FactTable}

section Questions

variable {α : Type} {I fault : Progress FactTable → Prop}

theorem triple_ask_reading (answer : FactTable → Except Fault α)
    (hfault : ∀ s, I s → fault s) :
    Triple I (ask (reading answer)) (fun a s => I s ∧ answer s.state = .ok a) fault := by
  intro s hs
  simp only [ask, reading]
  cases hanswer : answer s.state with
  | ok a => exact .ok ⟨hs, hanswer⟩
  | error e => exact .error (hfault s hs)

-- If the marks do not matter, the answer is the one that the tables gave at first.
theorem triple_ask_unmarked {answer : FactTable → α} (hanswer : ∀ u, answer u.unmarked = answer u)
    (hI : ∀ s, I s → s.state.unmarked = t.unmarked) :
    Triple I (ask do return answer (← get)) (fun a s => I s ∧ answer t = a) fault := by
  intro s hs
  refine .ok ⟨hs, ?_⟩
  rw [← hanswer t, ← hI s hs, hanswer s.state]

theorem maintains_ask_reading (answer : FactTable → Except Fault α) :
    Maintains I (ask (reading answer)) :=
  (triple_ask_reading answer fun _ hs => hs).mono (fun _ hs => hs) (fun _ _ hs => hs.1)
    fun _ hs => hs

end Questions

variable (settings t) in
def passesGates (r : f.RegionIx) : Bool := f.isCoalescible settings r && t.nestsSafely f r

variable (settings f t) in
-- A committed region passes the gates, or it is the safe and complete reduced form of one that
-- does.
inductive Committable (id : RegionId) : Prop
  | whole {r : f.RegionIx} (hgates : t.passesGates settings r) (hid : f.regionId r = id)
      (hsafe : t.isSafe f id)
  | reduced {r : f.RegionIx} (hgates : t.passesGates settings r)
      (hform : t.reducedForm f (f.regionId r) = some id) (hsafe : t.isSafe f id)
      (hcomplete : (t.analyzeReduced f (f.regionId r)).isComplete f id = .ok true)

theorem Committable.exists_region {id : RegionId} (h : Committable settings f t id) :
    ∃ r, f.regionId r = id := by
  cases h with
  | whole hgates hid => exact ⟨_, hid⟩
  | reduced hgates hform hsafe hcomplete => exact exists_region_of_isComplete hcomplete

-- Since `before` only such regions were committed. The marks may differ from those of `t`.
structure Gated (settings : Settings) (f : Function) (t : FactTable) (before : List Event)
    (s : Progress FactTable) : Prop where
  facts : s.state.unmarked = t.unmarked
  events : ∃ run, s.events.toList = before ++ run ∧
    ∀ id ∈ committed run, Committable settings f t id

variable {before : List Event}

theorem Gated.push {s : Progress FactTable} (h : Gated settings f t before s) {event : Event}
    (hevent : ∀ id ∈ committed [event], Committable settings f t id) :
    Gated settings f t before { s with events := s.events.push event } where
  facts := h.facts
  events := by
    obtain ⟨run, hrun, hcommittable⟩ := h.events
    refine ⟨run ++ [event], by simp [hrun], fun id hid => ?_⟩
    rw [committed_append] at hid
    rcases List.mem_append.mp hid with hid | hid
    · exact hcommittable id hid
    · exact hevent id hid

theorem ignoresWriting_gated : IgnoresWriting (Gated settings f t before) where
  counted _ _ _ _ h := h.push nofun
  annotated _ _ h := ⟨h.facts, h.events⟩
  registered _ _ h := ⟨h.facts, h.events⟩
  named _ _ h := ⟨h.facts, h.events⟩

theorem maintains_commitRegion {id : RegionId} (hid : Committable settings f t id)
    (lines : LineSpan) :
    Maintains (Gated settings f t before) ((job settings p f).commitRegion id lines) := by
  refine ignoresWriting_gated.commitRegion (fun request => ?_) fun s request result hs => ?_
  · exact fun _ hs => .ok hs
  · refine hs.push fun other hother => ?_
    cases result with
    | none => cases hother
    | some extraction => exact List.mem_singleton.mp hother ▸ hid

-- The same once the reduced form of a region was analyzed. Of the marks only its own matters then.
def Analyzed (settings : Settings) (f : Function) (t : FactTable) (before : List Event)
    (id : RegionId) (s : Progress FactTable) : Prop :=
  Gated settings f t before s ∧
    ∃ u : FactTable, u.unmarked = t.unmarked ∧ s.state = u.analyzeReduced f id

theorem maintains_commitReduced {r : f.RegionIx} (hgates : t.passesGates settings r) :
    Maintains (Gated settings f t before)
      ((job settings p f).commitReduced (f.regionId r)) := by
  have hfacts (s : Progress FactTable) (hs : Analyzed settings f t before (f.regionId r) s) :
      s.state.unmarked = t.unmarked := hs.1.facts
  have hanalyze : Triple (Gated settings f t before)
      (ask (analyses.analyzeReduced f (f.regionId r)))
      (fun _ => Analyzed settings f t before (f.regionId r)) (Gated settings f t before) := by
    intro s hs
    refine .ok ⟨⟨?_, hs.events⟩, s.state, hs.facts, rfl⟩
    exact (unmarked_analyzeReduced _ _ _).trans hs.facts
  have hrecord : Triple (Analyzed settings f t before (f.regionId r))
      (record (.analyzed (f.regionId r)))
      (fun _ => Analyzed settings f t before (f.regionId r)) (Gated settings f t before) :=
    Triple.modify fun s hs => ⟨hs.1.push nofun, hs.2⟩
  refine Triple.bind hanalyze fun _ => Triple.bind hrecord fun _ => ?_
  refine Triple.bind (triple_ask_unmarked (fun u => reducedForm_unmarked u f _) hfacts) fun form =>
    Triple.of_fact fun hform => ?_
  cases form with
  | none => exact Triple.pure fun _ hs => hs.1
  | some reduced =>
      refine Triple.bind (triple_ask_unmarked (fun u => isSafe_unmarked u f _) hfacts) fun safe =>
        Triple.of_fact fun hsafe => ?_
      cases safe with
      | false => exact Triple.pure fun _ hs => hs.1
      | true =>
          have hcomplete : Triple (Analyzed settings f t before (f.regionId r))
              (ask (analyses.isComplete f reduced))
              (fun complete s => Gated settings f t before s ∧
                (t.analyzeReduced f (f.regionId r)).isComplete f reduced = .ok complete)
              (Gated settings f t before) := by
            refine (triple_ask_reading (fun t => t.isComplete f reduced) fun _ hs => hs.1).mono
              (fun _ hs => hs) (fun complete s hs => ⟨hs.1.1, ?_⟩) fun _ hs => hs
            obtain ⟨u, hu, hstate⟩ := hs.1.2
            rw [← hs.2, hstate]
            exact isComplete_analyzeReduced hu.symm hform
          refine Triple.bind hcomplete fun complete => Triple.of_fact fun hcomplete => ?_
          cases complete with
          | false => exact Maintains.pure _
          | true =>
              have hid := Committable.reduced hgates hform hsafe hcomplete
              refine Maintains.bind (maintains_ask_reading _) fun lines => ?_
              cases lines with
              | none => exact .pure _
              | some lines => exact .bind (maintains_commitRegion hid lines) fun _ => .pure _

theorem maintains_visitRegion (r : f.RegionIx) :
    Maintains (Gated settings f t before) ((job settings p f).visitRegion r) := by
  have hfacts (s : Progress FactTable) (hs : Gated settings f t before s) :
      s.state.unmarked = t.unmarked := hs.facts
  refine .bind (maintains_ask_reading _) fun lines => .ite (fun hcoalescible => ?_) fun _ => .pure _
  have hnested : Triple (Gated settings f t before)
      (ask (analyses.isSafelyNested f (f.regionId r)))
      (fun nested s => Gated settings f t before s ∧ t.nestsSafely f r = nested)
      (Gated settings f t before) := by
    refine (triple_ask_reading (fun t => t.isSafelyNested f (f.regionId r)) fun _ hs => hs).mono
      (fun _ hs => hs) (fun nested s hs => ⟨hs.1, ?_⟩) fun _ hs => hs
    have hanswer : t.isSafelyNested f (f.regionId r) = .ok nested := by
      rw [← hs.2, ← isSafelyNested_unmarked, ← hs.1.facts, isSafelyNested_unmarked]
    rw [isSafelyNested_regionId] at hanswer
    exact Except.ok.inj hanswer
  refine Triple.bind hnested fun nested => Triple.of_fact fun hnested => ?_
  refine Maintains.ite (fun hyes => ?_) fun _ => .pure _
  have hgates : t.passesGates settings r :=
    Bool.and_eq_true_iff.mpr ⟨hcoalescible, hnested.trans hyes⟩
  cases lines with
  | none => exact .pure _
  | some lines =>
      have hreduced : Maintains (Gated settings f t before)
          (do return !(← (job settings p f).commitReduced (f.regionId r))) :=
        .bind (maintains_commitReduced hgates) fun _ => .pure _
      refine .bind (maintains_ask_reading _) fun complete => .ite (fun _ => ?_) fun _ => hreduced
      refine Triple.bind (triple_ask_unmarked (fun u => isSafe_unmarked u f _) hfacts) fun safe =>
        Triple.of_fact fun hsafe => ?_
      refine Maintains.ite (fun hyes => ?_) fun _ => hreduced
      have hid : Committable settings f t (f.regionId r) := .whole hgates rfl (hsafe.trans hyes)
      exact .bind (maintains_commitRegion hid lines) fun _ => .pure _

theorem offloadRegions_run (settings : Settings) (p : Program) (f : Function) (root : f.RegionIx)
    (shared : Shared FactTable) :
    let after := ((job settings p f).offloadRegions root).after { toShared := shared }
    ∃ run, after.events.toList = shared.events.toList ++ run ∧
      after.annotations = run.foldl (job settings p f).written ∅ ∧
      ∀ id ∈ committed run, Committable settings f shared.state id := by
  have hgated : Maintains (Gated settings f shared.state shared.events.toList)
      ((job settings p f).offloadRegions root) := .walk _ maintains_visitRegion [root]
  have hreplays := Job.maintains_replays_offloadRegions (j := job settings p f)
    (s := { toShared := shared }) root
  have hstart : Gated settings f shared.state shared.events.toList { toShared := shared } :=
    ⟨rfl, [], by simp, by simp [committed]⟩
  obtain ⟨run, hrun, hcommittable⟩ := (after_of_maintains hgated hstart).events
  obtain ⟨run', hrun', hwritten, -⟩ := after_of_maintains hreplays (.refl _)
  obtain rfl : run = run' := List.append_cancel_left (hrun.symm.trans hrun')
  exact ⟨run, hrun, hwritten, hcommittable⟩

-- What a run over regions commits went through the gates, in its own right or through the region
-- it is the reduced form of. If reduced forms pass the gates themselves, so does all that is
-- committed.
theorem offloadRegions_commits_gated (settings : Settings) (p : Program) (f : Function)
    (root : f.RegionIx) (shared : Shared FactTable) :
    ∃ run, (((job settings p f).offloadRegions root).after { toShared := shared }).events.toList =
        shared.events.toList ++ run ∧
      (∀ id ∈ committed run, Committable settings f shared.state id) ∧
      ((∀ r reduced, shared.state.reducedForm f (f.regionId r) = some reduced →
          ∃ i : f.RegionIx, f.regionId i = reduced ∧ shared.state.passesGates settings i) →
        ∀ id ∈ committed run,
          ∃ i : f.RegionIx, f.regionId i = id ∧ shared.state.passesGates settings i) := by
  have hstart : Gated settings f shared.state shared.events.toList { toShared := shared } :=
    ⟨rfl, [], by simp, by simp [committed]⟩
  have hwalk : Maintains (Gated settings f shared.state shared.events.toList)
      ((job settings p f).offloadRegions root) := .walk _ maintains_visitRegion [root]
  obtain ⟨run, hrun, hcommittable⟩ := (after_of_maintains hwalk hstart).events
  refine ⟨run, hrun, hcommittable, fun hforms id hid => ?_⟩
  cases hcommittable id hid with
  | whole hgates hr => exact ⟨_, hr, hgates⟩
  | reduced hgates hform => exact hforms _ id hform

-- The whole body of a function and a detached copy of it, neither of them with a block before it.
def copiedBodyDraft : FunctionDraft where
  name := "f"
  blocks := [{ id := ⟨0⟩, lines := [4] }, { id := ⟨1⟩, lines := [5] }, { id := ⟨2⟩, lines := [6] }]
  loops := [{ id := ⟨0⟩, header := ⟨1⟩, latch := some ⟨2⟩, blocks := [⟨1⟩, ⟨2⟩],
              startLine := some 5 }]
  regions := [{ id := ⟨0⟩, blocks := [⟨0⟩, ⟨1⟩, ⟨2⟩] },
    { id := ⟨1⟩, blocks := [⟨0⟩, ⟨1⟩, ⟨2⟩], detached := true }]

def copiedBody : Function :=
  (Function.ofDraft copiedBodyDraft).toOption.get (by decide +kernel)

def copiedBodyFacts : FactTable := edit {} "f" fun facts =>
  let comments : Std.ExtTreeMap UInt32 String := {(5, "#pragma acc data copy(a)\n\x7b\n")}
  { facts with
    incomplete := {⟨0⟩}
    reduced := {(⟨0⟩, ⟨1⟩)}
    regionExtractions := facts.regionExtractions.insert ⟨1⟩ { comments } }

-- The copy does not pass. It is committed all the same: its block is opened and closed, and there
-- is no kernel in it.
theorem copiedBody_commits_ungated :
    let run := ((job { coalesce := true } ⟨[copiedBody], by decide⟩ copiedBody).offloadRegions
      copiedBody.regions.top).after { state := copiedBodyFacts }
    committed run.events.toList = [⟨1⟩] ∧
      copiedBodyFacts.passesGates { coalesce := true } (f := copiedBody)
        ⟨1, by decide +kernel⟩ = false ∧
      run.annotations.toList = [(5, "#pragma acc data copy(a)\n\x7b\n"), (7, "\x7d\n")] := by
  decide +kernel

end FactTable

end LoopPragma
