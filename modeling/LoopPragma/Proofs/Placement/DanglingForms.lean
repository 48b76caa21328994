import LoopPragma.Proofs.Placement.Course
import LoopPragma.Proofs.Placement.Independence

namespace LoopPragma

namespace FactTable

variable (settings : Settings) (t : FactTable) {f : Function}

def ComesTo (r : f.RegionIx) : Prop :=
  f.regions.nesting.Leads (Nesting.goesOn (t.course settings)) f.startRegion r

-- At a region its reduced form is asked for, is not turned down and stands for no region.
structure Dangles (r : f.RegionIx) (x : RegionId) : Prop where
  asked : t.asksReduced settings r
  form : t.reducedForm f (f.regionId r) = some x
  accepted : t.turnsDown f x = false
  dangling : ∀ i, f.regionId i ≠ x

variable {settings t}

theorem commitsReduced_eq_error_iff {id : RegionId} {e : Fault} :
    t.commitsReduced f id = .error e ↔ ∃ x, t.reducedForm f id = some x ∧
      t.turnsDown f x = false ∧ (∀ i, f.regionId i ≠ x) ∧ e = ⟨.region, x⟩ := by
  rw [commitsReduced]
  cases t.reducedForm f id with
  | none => simp
  | some x =>
      dsimp only
      simp only [Option.some.injEq, exists_eq_left']
      cases t.turnsDown f x with
      | true => simp
      | false =>
          rw [if_neg Bool.false_ne_true, eq_self, true_and, ← Function.region_eq_error_iff]
          cases f.region x with
          | error e' => simp [Except.map]
          | ok i => simp [Except.map]

theorem course_eq_error_iff {r : f.RegionIx} {e : Fault} :
    t.course settings r = .error e ↔ ∃ x, t.Dangles settings r x ∧ e = ⟨.region, x⟩ := by
  have hdangles (x : RegionId) : t.Dangles settings r x ↔ t.asksReduced settings r ∧
      t.reducedForm f (f.regionId r) = some x ∧ t.turnsDown f x = false ∧
        ∀ i, f.regionId i ≠ x :=
    ⟨fun h => ⟨h.asked, h.form, h.accepted, h.dangling⟩, fun h => ⟨h.1, h.2.1, h.2.2.1, h.2.2.2⟩⟩
  simp only [hdangles, and_assoc, exists_and_left, ← commitsReduced_eq_error_iff]
  rw [course, asksReduced]
  cases t.passesGates settings r && (t.linesOf f r).isSome with
  | false => simp
  | true =>
      cases t.isBounded f r && t.isSafe f (f.regionId r) with
      | true => simp
      | false =>
          cases t.commitsReduced f (f.regionId r) <;>
            simp [bind, Except.bind, pure, Except.pure]

theorem exists_of_bodyCourse_eq_error {e : Fault} (h : t.bodyCourse settings f = .error e) :
    settings.coalesce ∧ ∃ r x, t.ComesTo settings (f := f) r ∧ t.Dangles settings r x ∧
      e = ⟨.region, x⟩ := by
  rw [bodyCourse] at h
  cases hmode : settings.coalesce with
  | false =>
      rw [hmode] at h
      cases h
  | true =>
      rw [hmode, if_pos rfl] at h
      obtain ⟨r, hr, hreached⟩ := Nesting.exists_of_walk_eq_error h
      obtain ⟨x, hdangles, rfl⟩ := course_eq_error_iff.mp hr
      exact ⟨rfl, r, x, Nesting.reached_singleton.mp hreached, hdangles, rfl⟩

theorem exists_bodyCourse_eq_error (hmode : settings.coalesce) {r : f.RegionIx} {x : RegionId}
    (hr : t.ComesTo settings r) (hx : t.Dangles settings r x) :
    ∃ e, t.bodyCourse settings f = .error e := by
  have hcourse : t.course settings r = .error ⟨.region, x⟩ :=
    course_eq_error_iff.mpr ⟨x, hx, rfl⟩
  rw [bodyCourse, if_pos hmode]
  exact Nesting.exists_walk_eq_error hcourse (Nesting.reached_singleton.mpr hr)

theorem visitRegion_of_turnsDown {p : Program} {r : f.RegionIx} {s : Progress FactTable}
    (hr : f.isDetached r = false) (hs : s.state.unmarked = t.unmarked)
    (hasked : t.asksReduced settings r)
    (hdown : ∀ x, t.reducedForm f (f.regionId r) = some x → t.turnsDown f x) :
    (job settings p f).visitRegion r s = .ok true (noted f (f.regionId r) s) := by
  simp only [asksReduced, Bool.and_eq_true, Bool.not_eq_true'] at hasked
  obtain ⟨⟨hgates, hlines⟩, hopen⟩ := hasked
  obtain ⟨lines, hlines⟩ := Option.isSome_iff_exists.mp hlines
  have hreduced : (job settings p f).commitReduced (f.regionId r) s =
      .ok false (noted f (f.regionId r) s) := by
    rw [commitReduced_eq hs]
    cases hform : t.reducedForm f (f.regionId r) with
    | none => rfl
    | some x =>
        dsimp only
        rw [if_pos (hdown x hform)]
  rw [visitRegion_eq hs hr, if_pos hgates, hlines]
  dsimp only
  rw [hopen, if_neg Bool.false_ne_true, bind_of_ok hreduced]
  rfl

end FactTable

open FactTable

variable {p : Program} {settings : Settings} {t : FactTable}

theorem alone_eq_error_iff {f : Function} {e : Fault} :
    p.alone settings t f = .error e ↔
      f.isDeclaration = false ∧ t.bodyCourse settings f = .error e := by
  have hfollows : Follows (SameFacts t) (job settings p f).annotateBody (t.bodyCourse settings f) :=
    follows_annotateBody
  have hrun := hfollows { state := t.unmarked } t.unmarked_unmarked
  rw [Program.alone, Job.annotate]
  cases hdecl : f.isDeclaration with
  | true => simp
  | false =>
      cases hcourse : t.bodyCourse settings f with
      | error e' =>
          rw [hcourse] at hrun
          obtain ⟨u, hu⟩ := hrun
          simp [hu]
      | ok _ =>
          rw [hcourse] at hrun
          obtain ⟨u, hu, -⟩ := hrun
          simp [hu]

-- A run ends in a fault only over a dangling form, at a region that the walk comes to, and over any
-- such form it does. One that is turned down is as good as none: the walk goes on below the region.
theorem Program.report_faults_at_dangling (p : Program) (settings : Settings) (t : FactTable) :
    (∀ e, p.report analyses settings t = .error e → settings.coalesce ∧
      ∃ f ∈ p.functions, f.isDeclaration = false ∧ ∃ (r : f.RegionIx) (x : RegionId),
        t.ComesTo settings r ∧ t.Dangles settings r x ∧ e = ⟨.region, x⟩) ∧
    (settings.coalesce → ∀ f ∈ p.functions, f.isDeclaration = false →
      ∀ (r : f.RegionIx) (x : RegionId), t.ComesTo settings r → t.Dangles settings r x →
        ∃ e, p.report analyses settings t = .error e) ∧
    ∀ (f : Function) (r : f.RegionIx) (s : Progress FactTable), f.isDetached r = false →
      s.state.unmarked = t.unmarked → t.asksReduced settings r →
      (∀ x, t.reducedForm f (f.regionId r) = some x → t.turnsDown f x) →
      (job settings p f).visitRegion r s = .ok true (noted f (f.regionId r) s) := by
  refine ⟨fun e h => ?_, fun hmode f hf hdecl r x hr hx => ?_, fun f r s hr hs hasked hdown => ?_⟩
  · obtain ⟨f, hf, halone⟩ := exists_of_report_eq_error h
    obtain ⟨hdecl, hcourse⟩ := alone_eq_error_iff.mp halone
    obtain ⟨hmode, hfault⟩ := exists_of_bodyCourse_eq_error hcourse
    exact ⟨hmode, f, hf, hdecl, hfault⟩
  · obtain ⟨e, hcourse⟩ := exists_bodyCourse_eq_error hmode hr hx
    exact exists_report_eq_error hf (alone_eq_error_iff.mpr ⟨hdecl, hcourse⟩)
  · exact visitRegion_of_turnsDown hr hs hasked hdown

def danglingFormDraft : ProgramDraft where
  functions := [{
    name := "f"
    blocks := [{ id := ⟨0⟩, lines := [4] }, { id := ⟨1⟩, lines := [5] },
      { id := ⟨2⟩, lines := [6] }]
    loops := [{ id := ⟨0⟩, header := ⟨1⟩, latch := some ⟨2⟩, blocks := [⟨1⟩, ⟨2⟩],
                startLine := some 5 }]
    regions := [{ id := ⟨0⟩, blocks := [⟨0⟩, ⟨1⟩, ⟨2⟩] },
      { id := ⟨1⟩, parent := some ⟨0⟩, entering := some ⟨0⟩, blocks := [⟨1⟩, ⟨2⟩] }] }]

def danglingForm : Program := (Program.ofDraft danglingFormDraft).toOption.get (by decide +kernel)

-- The outer region could not be bounded, and the region named in its place does not exist.
def danglingFormFacts : FactTable := edit {} "f" fun facts =>
  { facts with
    incomplete := {⟨0⟩}
    reduced := {(⟨0⟩, ⟨7⟩)}
    regionExtractions := facts.regionExtractions.insert ⟨1⟩ {} }

-- The walk never gets to the inner region.
theorem danglingForm_faults :
    (∀ f ∈ danglingForm.functions, ∀ i : f.RegionIx, f.regionId i ≠ ⟨7⟩) ∧
      danglingForm.report analyses { coalesce := true } danglingFormFacts =
        .error ⟨.region, ⟨7⟩⟩ := by
  have hvalue : (match danglingForm.report analyses { coalesce := true } danglingFormFacts with
    | .ok _ => false
    | .error e => decide (e = ⟨.region, ⟨7⟩⟩)) = true := by decide +kernel
  refine ⟨by decide +kernel, ?_⟩
  cases hrun : danglingForm.report analyses { coalesce := true } danglingFormFacts with
  | ok report =>
      rw [hrun] at hvalue
      cases hvalue
  | error e =>
      rw [hrun] at hvalue
      rw [of_decide_eq_true hvalue]

end LoopPragma
