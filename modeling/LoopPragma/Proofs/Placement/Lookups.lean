import LoopPragma.Document.Input
import LoopPragma.Proofs.Model.Resolution
import LoopPragma.Proofs.Placement.DanglingForms
import LoopPragma.Proofs.Placement.Requests

namespace LoopPragma

open Place

namespace Analyses

section Strict

variable {σ α : Type}

def aboutRegion (f : Function) (id : RegionId) (question : Consult σ α) : Consult σ α := do
  let _ ← (ofExcept (f.region id) : Consult σ f.RegionIx)
  question

def aboutLoop (f : Function) (id : LoopId) (question : Consult σ α) : Consult σ α := do
  let _ ← (ofExcept (f.loop id) : Consult σ f.LoopIx)
  question

-- The same analyses, but every id that stands for nothing leads to a fault.
def strict (A : Analyses σ) : Analyses σ where
  isComplete f id := aboutRegion f id (A.isComplete f id)
  analyzeReduced f id := aboutRegion f id (A.analyzeReduced f id)
  reducedForm f id := aboutRegion f id (A.reducedForm f id)
  isSafe f id := aboutRegion f id (A.isSafe f id)
  lines f id := aboutRegion f id (A.lines f id)
  isSafelyNested f id := aboutRegion f id (A.isSafelyNested f id)
  extractLoop f request id := aboutLoop f id (A.extractLoop f request id)
  extractRegion f request id := aboutRegion f id (A.extractRegion f request id)

@[simp] theorem aboutRegion_regionId {f : Function} (r : f.RegionIx) (question : Consult σ α) :
    aboutRegion f (f.regionId r) question = question := by
  rw [aboutRegion, f.region_regionId]
  rfl

@[simp] theorem aboutLoop_loopId {f : Function} (lp : f.LoopIx) (question : Consult σ α) :
    aboutLoop f (f.loopId lp) question = question := by
  rw [aboutLoop, f.loop_loopId]
  rfl

variable {A : Analyses σ}

theorem strict_isAnalyzable {f : Function} (lp : f.LoopIx) :
    A.strict.isAnalyzable f lp = A.isAnalyzable f lp := by
  simp [isAnalyzable, strict]

end Strict

end Analyses

open Analyses

section Loops

variable {σ : Type} {A : Analyses σ} {settings : Settings} {p : Program} {f : Function}

theorem strict_countLoops : Job.countLoops ⟨A.strict, settings, p, f⟩ =
    Job.countLoops ⟨A, settings, p, f⟩ := by
  simp only [Job.countLoops, strict_isAnalyzable]

theorem strict_extract_loop (lp : f.LoopIx) (line : UInt32) :
    Job.extract ⟨A.strict, settings, p, f⟩ (.loop (f.loopId lp) line) =
      Job.extract ⟨A, settings, p, f⟩ (.loop (f.loopId lp) line) := by
  simp [Job.extract, strict]

theorem strict_extract_region (r : f.RegionIx) (lines : LineSpan) :
    Job.extract ⟨A.strict, settings, p, f⟩ (.region (f.regionId r) lines) =
      Job.extract ⟨A, settings, p, f⟩ (.region (f.regionId r) lines) := by
  simp [Job.extract, strict]

theorem strict_commitLoop (lp : f.LoopIx) (line : UInt32) :
    Job.commitLoop ⟨A.strict, settings, p, f⟩ lp line =
      Job.commitLoop ⟨A, settings, p, f⟩ lp line := by
  simp only [Job.commitLoop, strict_extract_loop]
  rfl

theorem strict_visitLoopOf (r : f.RegionIx) :
    Job.visitLoopOf ⟨A.strict, settings, p, f⟩ r = Job.visitLoopOf ⟨A, settings, p, f⟩ r := by
  have heligible (lp : f.LoopIx) : Job.isEligible ⟨A.strict, settings, p, f⟩ r lp =
      Job.isEligible ⟨A, settings, p, f⟩ r lp := by
    simp only [Job.isEligible, strict_isAnalyzable]
    simp only [strict, aboutRegion_regionId]
  rw [Job.visitLoopOf, Job.visitLoopOf]
  cases f.ownerLoop r with
  | none => rfl
  | some lp =>
      dsimp only
      rw [heligible]
      cases f.startLine lp with
      | none => rfl
      | some line =>
          dsimp only
          rw [strict_commitLoop]
          rfl

theorem strict_commitRegion (r : f.RegionIx) (lines : LineSpan) :
    Job.commitRegion ⟨A.strict, settings, p, f⟩ (f.regionId r) lines =
      Job.commitRegion ⟨A, settings, p, f⟩ (f.regionId r) lines := by
  simp only [Job.commitRegion, strict_extract_region]
  rfl

end Loops

namespace FactTable

variable {settings : Settings} {p : Program} {f : Function} {t : FactTable}

def FormsExist (t : FactTable) (f : Function) : Prop :=
  ∀ id x, t.reducedForm f id = some x → ∃ i, f.regionId i = x

theorem formsExist_iff : t.FormsExist f ↔
    ∀ facts ∈ t.factsOf f, ∀ entry ∈ facts.reduced.toList, ∃ i, f.regionId i = entry.2 := by
  constructor
  · intro h facts hfacts entry hentry
    apply h entry.1 entry.2
    rw [reducedForm, Option.mem_def.mp hfacts]
    exact Std.ExtTreeMap.mem_toList_iff_getElem?_eq_some.mp hentry
  · intro h id x hform
    obtain ⟨facts, hfacts, hget⟩ := Option.bind_eq_some_iff.mp hform
    exact h facts hfacts (id, x) (Std.ExtTreeMap.mem_toList_iff_getElem?_eq_some.mpr hget)

instance (t : FactTable) (f : Function) : Decidable (t.FormsExist f) :=
  decidable_of_iff _ formsExist_iff.symm

abbrev strictJob (settings : Settings) (p : Program) (f : Function) : Job FactTable :=
  ⟨analyses.strict, settings, p, f⟩

theorem inquiry_sameFacts : (job settings p f).Inquiry (SameFacts t) :=
  inquiry_of_marks (fun s id h => (unmarked_analyzeReduced s.state f id).trans h)
    (fun _ _ _ h => h) fun _ _ h => h

theorem maintains_sameFacts_commitRegion (id : RegionId) (lines : LineSpan) :
    Maintains (SameFacts t) ((job settings p f).commitRegion id lines) := by
  have hwriting : IgnoresWriting (SameFacts t) :=
    { counted := fun _ _ _ _ h => h
      annotated := fun _ _ h => h
      registered := fun _ _ h => h
      named := fun _ _ h => h }
  exact hwriting.commitRegion (fun _ _ hs => .ok hs) fun _ _ _ hs => hs

theorem equalOn_commitReduced (hforms : t.FormsExist f) (r : f.RegionIx) :
    EqualOn (SameFacts t) ((job settings p f).commitReduced (f.regionId r))
      ((strictJob settings p f).commitReduced (f.regionId r)) := by
  have hinquiry : (job settings p f).Inquiry (SameFacts t) := inquiry_sameFacts
  have hform : Triple (SameFacts t) (ask (analyses.reducedForm f (f.regionId r)))
      (fun form s => SameFacts t s ∧ t.reducedForm f (f.regionId r) = form) (SameFacts t) :=
    triple_ask_unmarked (fun u => reducedForm_unmarked u f _) fun _ hs => hs
  simp only [Job.commitReduced, strict, aboutRegion_regionId]
  refine .bind (hinquiry.analyzeReduced _) (.refl _) fun _ => ?_
  refine .bind (hinquiry.analyzed _) (.refl _) fun _ => ?_
  refine .bind_triple hform (.refl _) fun form => ?_
  cases form with
  | none => exact .refl _
  | some x =>
      intro s hs
      obtain ⟨i, rfl⟩ := hforms _ x hs.2
      simp only [aboutRegion_regionId, strict_commitRegion]

theorem equalOn_visitRegion (hforms : t.FormsExist f) (r : f.RegionIx) :
    EqualOn (SameFacts t) ((job settings p f).visitRegion r)
      ((strictJob settings p f).visitRegion r) := by
  have hinquiry : (job settings p f).Inquiry (SameFacts t) := inquiry_sameFacts
  have hreduced : EqualOn (SameFacts t)
      (do return !(← (job settings p f).commitReduced (f.regionId r)))
      (do return !(← (strictJob settings p f).commitReduced (f.regionId r))) :=
    .bind (hinquiry.commitReduced (fun id lines _ => maintains_sameFacts_commitRegion id lines) _)
      (equalOn_commitReduced hforms r) fun _ => .refl _
  simp only [Job.visitRegion, strict_commitRegion]
  simp only [strict, aboutRegion_regionId]
  refine .bind (hinquiry.lines _) (.refl _) fun lines => .ite (fun _ => ?_) fun _ => .refl _
  refine .bind (hinquiry.isSafelyNested _) (.refl _) fun nested => ?_
  refine .ite (fun _ => ?_) fun _ => .refl _
  cases lines with
  | none => exact .refl _
  | some lines =>
      refine .bind (hinquiry.isComplete _) (.refl _) fun complete => ?_
      refine .ite (fun _ => ?_) fun _ => hreduced
      refine .bind (hinquiry.isSafe _) (.refl _) fun safe => ?_
      exact .ite (fun _ => .refl _) fun _ => hreduced

theorem maintains_sameFacts_annotateBody :
    Maintains (SameFacts t) (job settings p f).annotateBody := by
  have hinquiry : (job settings p f).Inquiry (SameFacts t) := inquiry_sameFacts
  have hloops (root : f.RegionIx) :
      Maintains (SameFacts t) ((job settings p f).markLoops root) :=
    (triple_markLoops root).mono (fun _ hs => hs) (fun _ _ hs => hs) fun _ => False.elim
  refine .bind hinquiry.countLoops fun _ => .ite (fun _ => ?_) fun _ => .pure _
  refine .ite (fun _ => ?_) fun _ => hloops _
  exact hinquiry.offloadRegions (fun id lines _ => maintains_sameFacts_commitRegion id lines) _

theorem equalOn_annotateBody (hforms : t.FormsExist f) :
    EqualOn (SameFacts t) (job settings p f).annotateBody
      (strictJob settings p f).annotateBody := by
  have hinquiry : (job settings p f).Inquiry (SameFacts t) := inquiry_sameFacts
  have hcount : EqualOn (SameFacts t) (job settings p f).countLoops
      (strictJob settings p f).countLoops := by
    rw [strict_countLoops]
    exact .refl _
  have hloops (root : f.RegionIx) : EqualOn (SameFacts t) ((job settings p f).markLoops root)
      ((strictJob settings p f).markLoops root) := by
    have hvisit : (strictJob settings p f).visitLoopOf = (job settings p f).visitLoopOf :=
      funext strict_visitLoopOf
    rw [Job.markLoops, Job.markLoops, hvisit]
    exact .refl _
  have hregions (root : f.RegionIx) :
      EqualOn (SameFacts t) ((job settings p f).offloadRegions root)
        ((strictJob settings p f).offloadRegions root) :=
    .walk _ (hinquiry.visitRegion fun id lines _ => maintains_sameFacts_commitRegion id lines)
      (equalOn_visitRegion hforms) [root]
  refine .bind hinquiry.countLoops hcount fun _ => .ite (fun _ => ?_) fun _ => .refl _
  exact .ite (fun _ => hregions _) fun _ => hloops _

variable (settings p) in
theorem equalOn_annotate (hforms : t.FormsExist f) :
    EqualOn (fun shared => shared.state.unmarked = t.unmarked) (job settings p f).annotate
      (strictJob settings p f).annotate := by
  intro shared hs
  have hbody : (job settings p f).annotateBody { toShared := shared } =
      (strictJob settings p f).annotateBody { toShared := shared } :=
    equalOn_annotateBody hforms _ hs
  rw [Job.annotate, Job.annotate, hbody]

-- Where every form exists, no question is about an id without a node, and nothing ends in a fault.
theorem report_eq_strict (settings : Settings) (hforms : ∀ f ∈ p.functions, t.FormsExist f) :
    ∃ report u, p.report analyses settings t = .ok (report, u) ∧
      p.report analyses.strict settings t = .ok (report, u) := by
  have hmaintains (f : Function) : Maintains (fun shared => shared.state.unmarked = t.unmarked)
      (job settings p f).annotate :=
    Job.maintains_annotate_of_body maintains_sameFacts_annotateBody
  have hequal : p.report analyses.strict settings t = p.report analyses settings t := by
    have hruns := EqualOn.mapM (fun f (_ : f ∈ p.functions) => hmaintains f)
      (fun f hf => equalOn_annotate settings p (hforms f hf)) { state := t } rfl
    rw [Program.report_eq, Program.report_eq, hruns]
  cases hrun : p.report analyses settings t with
  | ok report => exact ⟨report.1, report.2, rfl, hequal.trans hrun⟩
  | error e =>
      obtain ⟨f, hf, halone⟩ := exists_of_report_eq_error hrun
      obtain ⟨-, r, x, -, hdangles, -⟩ :=
        exists_of_bodyCourse_eq_error (alone_eq_error_iff.mp halone).2
      obtain ⟨i, hi⟩ := hforms f hf _ x hdangles.form
      exact absurd hi (hdangles.dangling i)

end FactTable

open FactTable

theorem Input.exists_of_load {document : Option Json} {p : Program} {t : FactTable}
    (h : Input.load document = .ok (p, t)) : ∃ input : Input,
      document.bind ofJson? = some input ∧ Program.ofDraft input.program = .ok p ∧
        input.facts = t := by
  unfold load at h
  split at h
  · cases h
  · rename_i input hinput
    split at h
    · cases h
    · rename_i program hprogram
      cases h
      exact ⟨input, hinput, hprogram, rfl⟩

-- An accepted document whose reduced forms exist never leads out of range. The positions that the
-- run goes by are the ids of the document, and every id that it asks the tables about or looks up
-- stands for a node of the function at hand.
theorem Input.report_in_range {document : Option Json} {p : Program} {t : FactTable}
    (hload : Input.load document = .ok (p, t)) (hforms : ∀ f ∈ p.functions, t.FormsExist f)
    (settings : Settings) :
    (∃ input : Input, document.bind ofJson? = some input ∧ input.facts = t ∧
      p.functions.map Function.draft = input.program.functions.map FunctionDraft.completed) ∧
    ∃ report u, p.report analyses settings t = .ok (report, u) ∧
      p.report analyses.strict settings t = .ok (report, u) := by
  obtain ⟨input, hinput, hprogram, hfacts⟩ := Input.exists_of_load hload
  exact ⟨⟨input, hinput, hfacts, Program.draft_of_ofDraft hprogram⟩,
    report_eq_strict settings hforms⟩

-- A loop whose header is missing from its blocks, in a region with a detached form. All other ids
-- in the tables are out of range.
def strayIds : Input where
  program := { functions := [{
    name := "f"
    blocks := [{ id := ⟨0⟩, lines := [4] }, { id := ⟨1⟩, lines := [5] },
      { id := ⟨2⟩, lines := [6] }]
    loops := [{ id := ⟨0⟩, header := ⟨1⟩, latch := some ⟨2⟩, blocks := [⟨2⟩],
                startLine := some 5 }]
    regions := [{ id := ⟨0⟩, blocks := [⟨0⟩, ⟨1⟩, ⟨2⟩] },
      { id := ⟨1⟩, entering := some ⟨0⟩, blocks := [⟨1⟩, ⟨2⟩], detached := true }] }] }
  facts := edit {} "f" fun facts =>
    { facts with
      incomplete := {⟨0⟩, ⟨70⟩}
      reduced := {(⟨0⟩, ⟨1⟩), (⟨71⟩, ⟨1⟩)}
      unsafeRegions := {⟨72⟩}
      unsafeScopes := {⟨73⟩}
      scopeLines := {(⟨74⟩, { start := 1, stop := 2 })}
      loopExtractions := facts.loopExtractions.insert ⟨75⟩ {}
      regionExtractions := (facts.regionExtractions.insert ⟨1⟩ {}).insert ⟨76⟩ {} }

def loadedStrayIds : Program × FactTable :=
  (Input.load (some (toJson strayIds))).toOption.get (by decide +kernel)

-- The detached form is committed in place of the region.
theorem strayIds_in_range :
    loadedStrayIds.1.functions.map Function.draft =
      strayIds.program.functions.map FunctionDraft.completed ∧
    ∃ report u, loadedStrayIds.1.report analyses { coalesce := true } loadedStrayIds.2 =
        .ok (report, u) ∧
      loadedStrayIds.1.report analyses.strict { coalesce := true } loadedStrayIds.2 =
        .ok (report, u) ∧
      report.merged.toList = [(5, "#pragma acc kernels\n"), (7, "\x7d\n")] := by
  have hload : Input.load (some (toJson strayIds)) =
      .ok (loadedStrayIds.1, loadedStrayIds.2) := eq_ok_get _
  have hforms : ∀ f ∈ loadedStrayIds.1.functions, loadedStrayIds.2.FormsExist f := by
    decide +kernel
  have hprogram : ((some (toJson strayIds)).bind ofJson?).map Input.program =
      some strayIds.program := by
    decide +kernel
  have htext : (match loadedStrayIds.1.report analyses { coalesce := true } loadedStrayIds.2 with
      | .ok report => report.1.merged.toList
      | .error _ => []) = [(5, "#pragma acc kernels\n"), (7, "\x7d\n")] := by
    decide +kernel
  obtain ⟨⟨input, hinput, -, hdrafts⟩, report, u, hrun, hstrict⟩ :=
    Input.report_in_range hload hforms { coalesce := true }
  rw [hinput, Option.map_some] at hprogram
  rw [Option.some.inj hprogram] at hdrafts
  rw [hrun] at htext
  exact ⟨hdrafts, report, u, hrun, hstrict, htext⟩

end LoopPragma
