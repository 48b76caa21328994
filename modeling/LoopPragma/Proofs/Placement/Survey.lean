import Mathlib.Algebra.BigOperators.Group.List.Basic
import Mathlib.Data.List.Nodup
import LoopPragma.Proofs.Counts.Total
import LoopPragma.Proofs.Placement.Independence
import LoopPragma.Proofs.Placement.ParallelKernels
import LoopPragma.Proofs.Placement.Requests
import LoopPragma.Proofs.Placement.Writing

namespace LoopPragma

open Counts Place

theorem nodup_eraseDups {α : Type} [DecidableEq α] (xs : List α) : xs.eraseDups.Nodup := by
  induction h : xs.length using Nat.strongRecOn generalizing xs with
  | ind n ih =>
      cases xs with
      | nil => simp
      | cons a xs =>
          have hshorter : (xs.filter fun b => !b == a).length < n := by
            rw [← h, List.length_cons]
            exact Nat.lt_succ_of_le (List.length_filter_le _ _)
          rw [List.eraseDups_cons, List.nodup_cons]
          exact ⟨by simp [List.mem_eraseDups], ih _ hshorter _ rfl⟩

namespace Job

section Walks

variable {σ : Type} {j : Job σ} {counter : Counter} {k : Nat}

theorem maintains_total_ask {α : Type} (q : Consult σ α) :
    Maintains (fun s => total counter s.events.toList = k) (ask q) :=
  Triple.ask (fun _ h _ _ _ => h) fun _ h _ => h

theorem maintains_total_record {event : Event} (h : event.amount counter = 0) :
    Maintains (fun s : Progress σ => total counter s.events.toList = k) (record event) := by
  refine Triple.modify fun s hs => ?_
  rw [Array.toList_push, total_append, total_singleton, h, hs, Nat.add_zero]

theorem maintains_total_extract (target : Target) :
    Maintains (fun s => total counter s.events.toList = k) (j.extract target) := by
  have hname : Maintains (fun s : Progress σ => total counter s.events.toList = k) freshName :=
    Triple.modifyGet fun _ h => h
  refine .bind hname fun _ => .bind (maintains_total_ask _) fun _ => ?_
  exact .bind (maintains_total_record rfl) fun _ => .pure _

variable (hcounter : ¬counter.IsOfWalk)

include hcounter

theorem amount_counted_of_walk {c : Counter} (hc : c.IsOfWalk) (amount : UInt64) :
    Event.amount counter (.counted c amount) = 0 := by
  have hne : c ≠ counter := fun heq => hcounter (heq ▸ hc)
  rw [Event.amount, if_neg hne]

theorem ignoresWriting_total :
    IgnoresWriting fun s : Progress σ => total counter s.events.toList = k where
  counted s c amount hc hs := by
    rw [Array.toList_push, total_append, total_singleton, amount_counted_of_walk hcounter hc, hs,
      Nat.add_zero]
  annotated _ _ h := h
  registered _ _ h := h
  named _ _ h := h

theorem inspection_total : j.Inspection fun s => total counter s.events.toList = k where
  isComplete _ := maintains_total_ask _
  analyzeReduced _ := maintains_total_ask _
  reducedForm _ := maintains_total_ask _
  isSafe _ := maintains_total_ask _
  lines _ := maintains_total_ask _
  isSafelyNested _ := maintains_total_ask _
  analyzed _ := maintains_total_record rfl
  countNest lp := (ignoresWriting_total hcounter).countNest lp

theorem maintains_total_walkFrom (root : j.function.RegionIx) :
    Maintains (fun s => total counter s.events.toList = k) (j.walkFrom root) := by
  refine (inspection_total hcounter).walkFrom (fun id lines _ => ?_) (fun lp line => ?_) root
  · exact (ignoresWriting_total hcounter).commitRegion_of_extract (maintains_total_extract _)
  · exact (ignoresWriting_total hcounter).commitLoop_of_triple (maintains_total_extract _)

end Walks

end Job

namespace Function

variable (f : Function)

def owningLoops : List f.LoopIx := (f.allBlocks.filterMap f.innermostLoop).eraseDups

def resultCalls (blocks : List f.BlockIx) : List Call := (f.callsIn blocks).filter Call.hasResult

-- Loops list no block twice, and no block is in two outermost loops.
structure SeparatesRoots : Prop where
  nodup : ∀ lp : f.LoopIx, (f.loopBlocks lp).toList.Nodup
  disjoint : ∀ lp ∈ f.loops.nesting.roots, ∀ lp' ∈ f.loops.nesting.roots,
    ∀ b, b ∈ f.loopBlocks lp → b ∈ f.loopBlocks lp' → lp = lp'

instance : Decidable f.SeparatesRoots :=
  decidable_of_iff ((∀ lp : f.LoopIx, (f.loopBlocks lp).toList.Nodup) ∧
      ∀ lp ∈ f.loops.nesting.roots, ∀ lp' ∈ f.loops.nesting.roots,
        ∀ b, b ∈ f.loopBlocks lp → b ∈ f.loopBlocks lp' → lp = lp')
    ⟨fun h => ⟨h.1, h.2⟩, fun h => ⟨h.nodup, h.disjoint⟩⟩

-- No loop has more calls than a machine word counts. No list in memory is longer than that.
def CallsFitWord : Prop :=
  ∀ lp : f.LoopIx, (f.resultCalls (f.loopBlocks lp).toList).length < UInt64.size

instance : Decidable f.CallsFitWord :=
  inferInstanceAs (Decidable
    (∀ lp : f.LoopIx, (f.resultCalls (f.loopBlocks lp).toList).length < UInt64.size))

variable {f}

theorem length_owningLoops (h : f.OwnsHeaders) : f.owningLoops.length = f.loops.size := by
  have hall : ∀ lp, lp ∈ f.owningLoops ↔ lp ∈ List.finRange f.loops.size := by
    intro lp
    refine iff_of_true ?_ (List.mem_finRange lp)
    rw [owningLoops, List.mem_eraseDups]
    exact List.mem_filterMap.mpr ⟨_, List.mem_finRange _, h lp⟩
  have hnodup : f.owningLoops.Nodup := nodup_eraseDups _
  have hperm := (List.perm_ext_iff_of_nodup hnodup (List.nodup_finRange _)).mpr hall
  rw [hperm.length_eq, List.length_finRange]

-- The blocks of some outermost loops, taken loop by loop, are taken once each.
theorem flatMap_loopBlocks_perm (h : f.SeparatesRoots) (test : f.LoopIx → Bool) :
    ((f.loops.nesting.roots.filter test).flatMap fun lp => (f.loopBlocks lp).toList).Perm
      (f.allBlocks.filter fun b =>
        (f.loops.nesting.roots.filter test).any fun lp => b ∈ f.loopBlocks lp) := by
  have hroots : (f.loops.nesting.roots.filter test).Nodup :=
    ((List.nodup_finRange _).filter _).filter _
  have hdisjoint : (f.loops.nesting.roots.filter test).Pairwise
      (Function.onFun List.Disjoint fun lp => (f.loopBlocks lp).toList) := by
    refine hroots.pairwise_of_forall_ne fun lp hlp lp' hlp' hne b hb hb' => hne ?_
    exact h.disjoint lp (List.mem_filter.mp hlp).1 lp' (List.mem_filter.mp hlp').1 b hb hb'
  refine (List.perm_ext_iff_of_nodup ?_ ((List.nodup_finRange _).filter _)).mpr fun b => ?_
  · exact List.nodup_flatMap.mpr ⟨fun lp _ => h.nodup lp, hdisjoint⟩
  · simp [BlockList.mem_def, and_assoc]

theorem sum_resultCalls (h : f.SeparatesRoots) (test : f.LoopIx → Bool) :
    ((f.loops.nesting.roots.filter test).map fun lp =>
        (f.resultCalls (f.loopBlocks lp).toList).length).sum =
      (f.resultCalls (f.allBlocks.filter fun b =>
        (f.loops.nesting.roots.filter test).any fun lp => b ∈ f.loopBlocks lp)).length := by
  have hperm := (f.flatMap_loopBlocks_perm h test).flatMap_right fun b => (f.blocks.get b).calls
  rw [resultCalls, callsIn, ← (hperm.filter _).length_eq, List.flatMap_assoc, List.filter_flatMap,
    List.length_flatMap]
  rfl

end Function

def Program.bodies (p : Program) : List Function := p.functions.filter fun f => !f.isDeclaration

theorem Program.sum_bodies (p : Program) (amount : Function → Nat) :
    (p.functions.map fun f => if f.isDeclaration then 0 else amount f).sum =
      (p.bodies.map amount).sum := by
  rw [bodies]
  induction p.functions with
  | nil => rfl
  | cons f functions ih =>
      rw [List.map_cons, List.sum_cons, ih]
      cases hdecl : f.isDeclaration with
      | true => simp [hdecl]
      | false => simp [hdecl]

namespace FactTable

variable (t : FactTable) {f : Function}

def survey (f : Function) : List Event :=
  (f.owningLoops.map fun _ => .counted .loops 1) ++
    (f.loops.nesting.roots.filter (t.isAnalyzable f)).map fun lp =>
      .counted .safeLoopCalls (.ofNat (f.resultCalls (f.loopBlocks lp).toList).length)

def safeCalls (f : Function) : List Call :=
  f.resultCalls (f.allBlocks.filter fun b =>
    (f.loops.nesting.roots.filter (t.isAnalyzable f)).any fun lp => b ∈ f.loopBlocks lp)

variable {t}

theorem survey_of_unmarked {u : FactTable} (h : u.unmarked = t.unmarked) :
    u.survey f = t.survey f := by
  have hanalyzable : u.isAnalyzable f = t.isAnalyzable f := funext (isAnalyzable_of_unmarked h)
  rw [survey, survey, hanalyzable]

theorem total_loops_survey (h : f.OwnsHeaders) : total .loops (t.survey f) = f.loops.size := by
  rw [survey, total_append, total_map, total_map]
  simp [Event.amount, Function.length_owningLoops h]

theorem total_safeLoopCalls_survey (h : f.SeparatesRoots) (hfit : f.CallsFitWord) :
    total .safeLoopCalls (t.survey f) = (t.safeCalls f).length := by
  have hamount (lp : f.LoopIx) : Event.amount .safeLoopCalls (.counted .safeLoopCalls
      (.ofNat (f.resultCalls (f.loopBlocks lp).toList).length)) =
        (f.resultCalls (f.loopBlocks lp).toList).length :=
    UInt64.toNat_ofNat_of_lt' (hfit lp)
  rw [survey, total_append, total_map, total_map, safeCalls, ← Function.sum_resultCalls h]
  simp only [hamount]
  simp [Event.amount]

section Survey

variable {settings : Settings} {p : Program}

theorem countCalls_eq (roots : List f.LoopIx) (s : Progress FactTable) :
    (forM roots fun lp => do
      if ← ask (analyses.isAnalyzable f lp) then
        count .safeLoopCalls (f.resultCalls (f.loopBlocks lp).toList).length
      : Place FactTable PUnit) s =
      .ok ⟨⟩ (s.put ((roots.filter (s.state.isAnalyzable f)).map fun lp =>
        .counted .safeLoopCalls (.ofNat (f.resultCalls (f.loopBlocks lp).toList).length)) []) := by
  induction roots generalizing s with
  | nil =>
      rw [List.filter_nil, List.map_nil, s.put_nil]
      rfl
  | cons lp roots ih =>
      have hask : ask (analyses.isAnalyzable f lp) s = .ok (s.state.isAnalyzable f lp) s := by
        rw [ask, isAnalyzable_eq]
      rw [List.forM_cons, bind_assoc, bind_of_ok hask]
      cases hlp : s.state.isAnalyzable f lp with
      | false =>
          rw [List.filter_cons_of_neg (by simp [hlp])]
          exact ih s
      | true =>
          have hcount : count .safeLoopCalls (f.resultCalls (f.loopBlocks lp).toList).length s =
              .ok ⟨⟩ (s.put [.counted .safeLoopCalls
                (.ofNat (f.resultCalls (f.loopBlocks lp).toList).length)] []) := rfl
          rw [List.filter_cons_of_pos hlp, List.map_cons]
          refine (bind_of_ok hcount).trans ((ih _).trans ?_)
          rw [Progress.put_put]
          rfl

theorem countLoops_eq (s : Progress FactTable) :
    (job settings p f).countLoops s = .ok ⟨⟩ (s.put (s.state.survey f) []) := by
  have hcount : ∀ lp ∈ f.owningLoops,
      Job.Puts (count .loops 1 : Place FactTable Unit) [.counted .loops 1] [] :=
    fun _ _ => Job.puts_count .loops 1
  obtain ⟨_, hloops⟩ := Job.Puts.forM hcount s
  rw [← List.map_eq_flatMap, List.flatMap_eq_nil_iff.mpr fun _ _ => rfl] at hloops
  rw [Job.countLoops]
  refine (bind_of_ok hloops).trans ((countCalls_eq _ _).trans ?_)
  rw [Progress.put_put]
  rfl

end Survey

section Runs

variable {settings : Settings} {p : Program} {counter : Counter}

variable (settings p f) in
theorem triple_total_annotateBody (hcounter : ¬counter.IsOfWalk) (s : Progress FactTable) :
    Triple (· = s) (job settings p f).annotateBody
      (fun _ u => total counter u.events.toList =
        total counter s.events.toList + total counter (s.state.survey f))
      fun _ => True := by
  rintro s rfl
  have hstart : total counter (s.put (s.state.survey f) []).events.toList =
      total counter s.events.toList + total counter (s.state.survey f) := by
    simp [Progress.put]
  have hwalk : Maintains (fun u => total counter u.events.toList =
      total counter s.events.toList + total counter (s.state.survey f))
      (if (job settings p f).isWorthWalking f.startRegion then
        (job settings p f).walkFrom f.startRegion else pure ()) :=
    .ite (fun _ => Job.maintains_total_walkFrom hcounter _) fun _ => .pure _
  rw [Job.annotateBody, bind_of_ok (countLoops_eq s)]
  exact (hwalk _ hstart).mono (fun _ _ h => h) fun _ _ => trivial

theorem total_alone (hcounter : ¬counter.IsOfWalk) {part : Annotations × Shared FactTable}
    (h : p.alone settings t f = .ok part) :
    total counter part.2.events.toList =
      if f.isDeclaration then 0 else total counter (t.survey f) := by
  rw [Program.alone, Job.annotate] at h
  by_cases hdecl : f.isDeclaration
  · rw [if_pos hdecl] at h ⊢
    cases h
    rfl
  · rw [if_neg hdecl] at h ⊢
    have hend := triple_total_annotateBody f settings p hcounter { state := t.unmarked } _ rfl
    generalize (job settings p f).annotateBody _ = u at h hend
    cases hend with
    | error _ => cases h
    | ok hend =>
        cases h
        rw [← survey_of_unmarked t.unmarked_unmarked]
        simpa using hend

theorem toNat_get_report {report : Report} {u : FactTable} (hcounter : ¬counter.IsOfWalk)
    (h : p.report analyses settings t = .ok (report, u)) :
    (report.counts.get counter).toNat =
      min ((p.bodies.map fun f => total counter (t.survey f)).sum) (UInt64.size - 1) := by
  cases hparts : p.functions.mapM (p.alone settings t) with
  | error e =>
      rw [report_of_fault (fun _ _ => rfl) hparts] at h
      cases h
  | ok parts =>
      obtain ⟨report', u', hrun, hreport, -⟩ := report_of_parts (fun _ _ => rfl) hparts
      rw [hrun] at h
      cases h
      have htotals := map_eq_of_listMapM_eq_ok (fun _ _ h => total_alone hcounter h) hparts
      rw [hreport.counts, ← ofEvents_flatMap, toNat_get_ofEvents, total_flatMap, htotals,
        Program.sum_bodies]

end Runs

end FactTable

open FactTable

-- Two runs from the same facts count the same loops and the same safe calls, whatever is asked for
-- and whatever was marked before. Where every loop owns its header, all loops of the functions with
-- a body are counted; where outermost loops share no block, every call with a result in an
-- analyzable one of them is counted once. A sum that no machine word holds is the greatest number
-- that one does.
theorem Program.survey_counts_once (p : Program) (t : FactTable) :
    (∀ t' settings settings' r r' u u', t'.unmarked = t.unmarked →
      p.report analyses settings t = .ok (r, u) → p.report analyses settings' t' = .ok (r', u') →
        r.counts.loops = r'.counts.loops ∧ r.counts.safeLoopCalls = r'.counts.safeLoopCalls) ∧
    ∀ settings r u, p.report analyses settings t = .ok (r, u) →
      ((∀ f ∈ p.bodies, f.OwnsHeaders) → r.counts.loops.toNat =
        min ((p.bodies.map fun f => f.loops.size).sum) (UInt64.size - 1)) ∧
      ((∀ f ∈ p.bodies, f.SeparatesRoots ∧ f.CallsFitWord) → r.counts.safeLoopCalls.toNat =
        min ((p.bodies.map fun f => (t.safeCalls f).length).sum) (UInt64.size - 1)) := by
  have hloops : ¬Counter.loops.IsOfWalk := by simp [Counter.IsOfWalk]
  have hcalls : ¬Counter.safeLoopCalls.IsOfWalk := by simp [Counter.IsOfWalk]
  refine ⟨fun t' settings settings' r r' u u' hmarks h h' => ?_, fun settings r u h => ⟨?_, ?_⟩⟩
  · have hsame {counter : Counter} (hcounter : ¬counter.IsOfWalk) :
        r.counts.get counter = r'.counts.get counter := by
      apply UInt64.toNat_inj.mp
      simp only [toNat_get_report hcounter h, toNat_get_report hcounter h',
        survey_of_unmarked hmarks]
    exact ⟨hsame hloops, hsame hcalls⟩
  · intro howns
    have hsizes : (p.bodies.map fun f => total .loops (t.survey f)) =
        p.bodies.map fun f => f.loops.size :=
      List.map_congr_left fun f hf => total_loops_survey (howns f hf)
    exact hsizes ▸ toNat_get_report hloops h
  · intro hapart
    have hsafe : (p.bodies.map fun f => total .safeLoopCalls (t.survey f)) =
        p.bodies.map fun f => (t.safeCalls f).length :=
      List.map_congr_left fun f hf => total_safeLoopCalls_survey (hapart f hf).1 (hapart f hf).2
    exact hsafe ▸ toNat_get_report hcalls h

-- A loop in a loop, a third loop in a region that could not be bounded, and a declaration that has
-- blocks all the same.
def surveyedDraft : ProgramDraft where
  functions := [
    { name := "f"
      blocks := [{ id := ⟨0⟩ }, { id := ⟨1⟩, calls := [{ hasResult := true }, {}] },
        { id := ⟨2⟩, calls := [{ hasResult := true }] },
        { id := ⟨3⟩, calls := [{ hasResult := true }] }]
      loops := [{ id := ⟨0⟩, header := ⟨1⟩, latch := some ⟨2⟩, blocks := [⟨1⟩, ⟨2⟩],
                  startLine := some 5 },
        { id := ⟨1⟩, header := ⟨2⟩, latch := some ⟨2⟩, blocks := [⟨2⟩], parent := some ⟨0⟩ },
        { id := ⟨2⟩, header := ⟨3⟩, latch := some ⟨3⟩, blocks := [⟨3⟩] }]
      regions := [{ id := ⟨0⟩, blocks := [⟨0⟩, ⟨1⟩, ⟨2⟩, ⟨3⟩] },
        { id := ⟨1⟩, parent := some ⟨0⟩, entering := some ⟨0⟩, blocks := [⟨1⟩, ⟨2⟩] },
        { id := ⟨2⟩, parent := some ⟨0⟩, entering := some ⟨2⟩, blocks := [⟨3⟩] }] },
    { name := "g"
      linkage := .declaration
      blocks := [{ id := ⟨0⟩, calls := [{ hasResult := true }] }]
      loops := [{ id := ⟨0⟩, header := ⟨0⟩, latch := some ⟨0⟩, blocks := [⟨0⟩] }] }]

def surveyed : Program := (Program.ofDraft surveyedDraft).toOption.get (by decide +kernel)

def surveyedFacts : FactTable := edit {} "f" fun facts => { facts with incomplete := {⟨2⟩} }

theorem surveyed_counts_once : ∃ r u r' u',
    surveyed.report analyses {} surveyedFacts = .ok (r, u) ∧
    surveyed.report analyses { coalesce := true, family := .ompGpu } surveyedFacts =
      .ok (r', u') ∧
    r.counts.loops = r'.counts.loops ∧ r.counts.safeLoopCalls = r'.counts.safeLoopCalls ∧
    r.counts.loops.toNat = 3 ∧ r.counts.safeLoopCalls.toNat = 2 := by
  obtain ⟨⟨r, u⟩, h⟩ : ∃ answer, surveyed.report analyses {} surveyedFacts = .ok answer :=
    ⟨_, eq_ok_get (by decide +kernel)⟩
  obtain ⟨⟨r', u'⟩, h'⟩ : ∃ answer, surveyed.report analyses
      { coalesce := true, family := .ompGpu } surveyedFacts = .ok answer :=
    ⟨_, eq_ok_get (by decide +kernel)⟩
  obtain ⟨hloops, hcalls⟩ := (Program.survey_counts_once _ _).1 _ _ _ r r' u u' rfl h h'
  obtain ⟨hall, hsafe⟩ := (Program.survey_counts_once _ _).2 _ r u h
  have howns : ∀ f ∈ surveyed.bodies, f.OwnsHeaders := by decide +kernel
  have hapart : ∀ f ∈ surveyed.bodies, f.SeparatesRoots ∧ f.CallsFitWord := by decide +kernel
  have hthree : min ((surveyed.bodies.map fun f => f.loops.size).sum) (UInt64.size - 1) = 3 := by
    decide +kernel
  have htwo : min ((surveyed.bodies.map fun f => (surveyedFacts.safeCalls f).length).sum)
      (UInt64.size - 1) = 2 := by
    decide +kernel
  exact ⟨r, u, r', u', h, h', hloops, hcalls, (hall howns).trans hthree,
    (hsafe hapart).trans htwo⟩

end LoopPragma
