import LoopPragma.Proofs.Annotations.Distinct
import LoopPragma.Proofs.Annotations.Placeholders
import LoopPragma.Proofs.Nesting.Nests
import LoopPragma.Proofs.Placement.Disjointness
import LoopPragma.Proofs.Placement.Provenance
import LoopPragma.Proofs.Placement.Requests

namespace LoopPragma

open Annotations ExtractionFact Place

def Event.isRequest : Event → Bool
  | .extracted .. => true
  | _ => false

namespace FactTable

variable {settings : Settings} {p : Program} {f : Function} {t : FactTable}

variable (t f) in
def factFor : Target → Option ExtractionFact
  | .loop id _ => (t.factsOf f).bind fun facts => facts.loopExtractions[id]?
  | .region id _ => (t.factsOf f).bind fun facts => facts.regionExtractions[id]?

theorem factFor_unmarked (target : Target) : t.unmarked.factFor f target = t.factFor f target := by
  cases target <;> cases h : t.factsOf f <;> simp [factFor, h, FunctionFacts.unmarked]

theorem extractLoop_eq (computation : String) (id : LoopId) (startLine : UInt32) :
    t.extractLoop f computation id =
      (t.factFor f (.loop id startLine)).map (·.instantiate computation) := by
  rw [extractLoop, factFor, Option.map_bind]
  rfl

theorem extractRegion_eq (computation : String) (id : RegionId) (lines : LineSpan) :
    t.extractRegion f computation id =
      (t.factFor f (.region id lines)).map (·.instantiate computation) := by
  rw [extractRegion, factFor, Option.map_bind]
  rfl

theorem computationName_ofNat {k : Nat} (hk : k < UInt32.size) :
    computationName (.ofNat k) = "AI" ++ toString k := by
  rw [computationName, UInt32.toNat_ofNat_of_lt' hk]

section Requests

variable (f t) in
def answerAt (k : Nat) (target : Target) : Option Extraction :=
  (t.factFor f target).map (·.instantiate (computationName (.ofNat (k + 1))))

theorem fills_answerAt (t : FactTable) (f : Function) (k : Nat) (target : Target) :
    Option.Rel (fun fact extraction => fact.Fills (computationName (.ofNat (k + 1))) extraction)
      (t.factFor f target) (t.answerAt f k target) := by
  have hname : computationName (.ofNat (k + 1)) ≠ "" := fun h =>
    computationName_ne_nil _ (String.toList_eq_nil_iff.mpr h)
  rw [answerAt]
  cases t.factFor f target with
  | none => exact .none
  | some fact => exact .some (fact.fills_instantiate hname)

variable (settings f t) in
def requestAt (k : Nat) (target : Target) : Event :=
  .extracted target
    { computation := computationName (.ofNat (k + 1)), startLine := target.startLine
      family := settings.family }
    (t.answerAt f k target)

theorem exists_fact_of_mem {run : List Event} {targets : List Target}
    (hrequests : run.filter Event.isRequest = targets.mapIdx (requestAt settings f t))
    {target : Target} {request : ExtractRequest} {extraction : Extraction}
    (h : .extracted target request (some extraction) ∈ run) :
    ∃ k fact, request.computation = computationName k ∧
      extraction = ExtractionFact.instantiate fact (computationName k) := by
  have hmem : .extracted target request (some extraction) ∈ run.filter Event.isRequest :=
    List.mem_filter.mpr ⟨h, rfl⟩
  rw [hrequests, List.mem_mapIdx] at hmem
  obtain ⟨k, hk, hrequest⟩ := hmem
  injection hrequest with htarget hnamed hanswer
  obtain ⟨fact, -, hfact⟩ := Option.map_eq_some_iff.mp hanswer
  exact ⟨.ofNat (k + 1), fact, by rw [← hnamed], hfact.symm⟩

theorem exists_answers {run : List Event} {targets : List Target}
    (hrequests : run.filter Event.isRequest = targets.mapIdx (requestAt settings f t))
    (hfew : targets.length < UInt32.size) :
    ∃ requests : List (Target × Option Extraction),
      run.filter Event.isRequest = requests.mapIdx (fun k (target, result) =>
        .extracted target { computation := "AI" ++ toString (k + 1), startLine := target.startLine
                            family := settings.family } result) ∧
      requests.length = targets.length ∧
      ∀ k target result, requests[k]? = some (target, result) →
        Option.Rel (fun fact extraction => fact.Fills ("AI" ++ toString (k + 1)) extraction)
          (t.factFor f target) result := by
  have hname (k : Nat) (hk : k < targets.length) :
      computationName (.ofNat (k + 1)) = "AI" ++ toString (k + 1) :=
    computationName_ofNat (by omega)
  refine ⟨targets.mapIdx fun k target => (target, t.answerAt f k target), ?_, by simp,
    fun k target result h => ?_⟩
  · rw [hrequests, List.mapIdx_mapIdx]
    refine List.ext_getElem (by simp) fun k hk _ => ?_
    simp only [List.getElem_mapIdx, Function.comp_apply, requestAt, hname k (by simpa using hk)]
  · rw [List.getElem?_mapIdx, Option.map_eq_some_iff] at h
    obtain ⟨target, htarget, heq⟩ := h
    obtain ⟨rfl, rfl⟩ := Prod.mk.inj heq
    rw [← hname k (List.getElem?_eq_some_iff.mp htarget).1]
    exact fills_answerAt t f k target

end Requests

-- Since `before` so many requests at most were made, numbered one after the other.
structure Numbered (settings : Settings) (f : Function) (t : FactTable) (before : List Event)
    (limit : Nat) (s : Progress FactTable) : Prop where
  facts : s.state.unmarked = t.unmarked
  requests : ∃ (run : List Event) (targets : List Target), s.events.toList = before ++ run ∧
    run.filter Event.isRequest = targets.mapIdx (requestAt settings f t) ∧
    s.computations = .ofNat targets.length ∧ targets.length ≤ limit

section Walk

variable {before : List Event} {limit : Nat}

theorem Numbered.mono {s : Progress FactTable} (h : Numbered settings f t before limit s)
    {limit' : Nat} (hle : limit ≤ limit') : Numbered settings f t before limit' s := by
  obtain ⟨run, targets, hrun, hrequests, hnumber, hlimit⟩ := h.requests
  exact ⟨h.facts, run, targets, hrun, hrequests, hnumber, hlimit.trans hle⟩

theorem Numbered.push {s : Progress FactTable} (h : Numbered settings f t before limit s)
    {event : Event} (hevent : event.isRequest = false) :
    Numbered settings f t before limit { s with events := s.events.push event } := by
  obtain ⟨run, targets, hrun, hrequests, hnumber, hlimit⟩ := h.requests
  exact ⟨h.facts, run ++ [event], targets, by simp [hrun], by simp [hrequests, hevent], hnumber,
    hlimit⟩

theorem ignoresOutput_numbered : IgnoresOutput (Numbered settings f t before limit) where
  counted _ _ _ _ h := h.push rfl
  annotated _ _ h := ⟨h.facts, h.requests⟩
  registered _ _ h := ⟨h.facts, h.requests⟩

theorem inquiry_numbered : (job settings p f).Inquiry (Numbered settings f t before limit) :=
  inquiry_of_marks
    (fun s id h => ⟨(unmarked_analyzeReduced s.state f id).trans h.facts, h.requests⟩)
    (fun _ _ _ h => h.push rfl) fun _ _ h => h.push rfl

theorem Numbered.request {s : Progress FactTable} (h : Numbered settings f t before limit s)
    (target : Target) : Numbered settings f t before (limit + 1)
      { s with
        events := s.events.push (.extracted target
          { computation := computationName (s.computations + 1), startLine := target.startLine
            family := settings.family }
          ((t.factFor f target).map (·.instantiate (computationName (s.computations + 1)))))
        computations := s.computations + 1 } := by
  obtain ⟨run, targets, hrun, hrequests, hnumber, hlimit⟩ := h.requests
  have hnext : s.computations + 1 = .ofNat (targets.length + 1) := by
    rw [hnumber, UInt32.ofNat_add]
    rfl
  have hevent : requestAt settings f t targets.length target = .extracted target
      { computation := computationName (s.computations + 1), startLine := target.startLine
        family := settings.family }
      ((t.factFor f target).map (·.instantiate (computationName (s.computations + 1)))) := by
    rw [hnext]
    rfl
  refine ⟨h.facts, run ++ [requestAt settings f t targets.length target], targets ++ [target],
    ?_, ?_, ?_, ?_⟩
  · simp [hrun, hevent]
  · rw [List.filter_append, hrequests, List.mapIdx_concat]
    rfl
  · rw [hnext, List.length_append, List.length_singleton]
  · simpa using hlimit

theorem triple_numbered_extract (target : Target) :
    Triple (Numbered settings f t before limit) ((job settings p f).extract target)
      (fun _ => Numbered settings f t before (limit + 1))
      (Numbered settings f t before (limit + 1)) := by
  intro s hs
  have hfact : s.state.factFor f target = t.factFor f target := by
    rw [← factFor_unmarked, hs.facts, factFor_unmarked]
  have hrequest := hs.request target
  rw [← hfact] at hrequest
  cases target with
  | loop id startLine =>
      rw [← extractLoop_eq] at hrequest
      exact .ok hrequest
  | region id lines =>
      rw [← extractRegion_eq] at hrequest
      exact .ok hrequest

-- A visit asks at most once, and only where the walk turns back.
theorem triple_numbered_walk {visit : f.RegionIx → Place FactTable Bool}
    (hvisit : ∀ limit r, Triple (Numbered settings f t before limit) (visit r)
      (fun goOn s => if goOn then Numbered settings f t before limit s
        else Numbered settings f t before (limit + 1) s)
      (Numbered settings f t before (limit + 1)))
    (root : f.RegionIx) :
    Triple (Numbered settings f t before 0) (f.regions.nesting.walk visit [root])
      (fun _ => Numbered settings f t before (f.regions.nesting.nest root).length)
      (Numbered settings f t before (f.regions.nesting.nest root).length) := by
  have hroot : Spread f.regions.nesting (root ∈ f.regions.nesting.ancestors ·) ([] ++ [root]) := by
    refine ⟨List.pairwise_singleton _ _, fun r hr => ?_⟩
    rw [List.mem_singleton.mp hr]
    exact Nesting.mem_ancestors_self _ _
  have hpost (turned : List f.RegionIx)
      (hspread : Spread f.regions.nesting (root ∈ f.regions.nesting.ancestors ·) turned)
      (s : Progress FactTable) (hs : Numbered settings f t before turned.length s) :
      Numbered settings f t before (f.regions.nesting.nest root).length s := by
    have hnodup : turned.Nodup := hspread.apart.imp Nesting.Apart.ne
    have hsubset : turned ⊆ f.regions.nesting.nest root := fun r hr =>
      Nesting.mem_nest_iff.mpr (hspread.kind r hr)
    exact hs.mono (hnodup.subperm hsubset).length_le
  refine Triple.walk_spread (I := fun turned => Numbered settings f t before turned.length)
    (fun r hr c hc => ?_) (fun turned r _ => ?_) hpost hroot
  · exact Nesting.ancestors_trans (Nesting.mem_ancestors_of_mem_children hc) hr
  · refine (hvisit turned.length r).mono (fun _ hs => hs) (fun goOn s hs => ?_) fun s hs => ?_
    · cases goOn with
      | true => exact hs
      | false => simpa using hs
    · exact Or.inr (by simpa using hs)

theorem triple_numbered_walkFrom (root : f.RegionIx) :
    Triple (Numbered settings f t before 0) ((job settings p f).walkFrom root)
      (fun _ => Numbered settings f t before (f.regions.nesting.nest root).length)
      (Numbered settings f t before (f.regions.nesting.nest root).length) := by
  refine .ite (fun _ => triple_numbered_walk (fun limit r => ?_) root) fun _ =>
    triple_numbered_walk (fun limit r => ?_) root
  · refine inquiry_numbered.visitRegion_of_commit (fun _ hs => hs.mono limit.le_succ) ?_ r
    exact fun id lines _ =>
      ignoresOutput_numbered.commitRegion_of_triple (triple_numbered_extract _)
  · refine inquiry_numbered.visitLoopOf_of_commit (fun _ hs => hs.mono limit.le_succ) ?_ r
    exact fun lp startLine =>
      ignoresOutput_numbered.commitLoop_of_triple (triple_numbered_extract _)

end Walk

section Texts

variable {run : List Event} {line : UInt32} {piece : List Char}

theorem endsLine_of_written (h : (job settings p f).Written run line piece) : endsLine piece := by
  cases h with
  | comment => exact endsLine_terminated _
  | guarded => exact endsLine_loopDirective _ _
  | unguarded => exact endsLine_loopDirective _ _
  | kernel _ _ _ _ _ hdirective => exact endsLine_kernelDirective hdirective
  | closing => decide

theorem isFilled_of_written
    (hrun : ∀ target request extraction, .extracted target request (some extraction) ∈ run →
      ∃ k fact, request.computation = computationName k ∧
        extraction = ExtractionFact.instantiate fact (computationName k))
    (h : (job settings p f).Written run line piece) : IsFilled piece := by
  cases h with
  | comment h hpiece =>
      obtain ⟨k, fact, -, rfl⟩ := hrun _ _ _ h
      exact isFilled_terminated ((isFilled_comments fact k line).of_part
        (Text.infix_of_mem_pieces hpiece))
  | guarded _ _ _ _ h =>
      obtain ⟨k, fact, -, rfl⟩ := hrun _ _ _ h
      exact isFilled_loopDirective _ (isFilled_fill k fact.guard)
  | unguarded => exact isFilled_loopDirective _ isFilled_nil
  | kernel _ _ _ _ h hdirective =>
      obtain ⟨k, fact, hname, -⟩ := hrun _ _ _ h
      refine isFilled_kernelDirective (fun name hrestriction => ?_) hdirective
      obtain ⟨-, hsame⟩ := Option.ite_none_right_eq_some.mp hrestriction
      rw [← Option.some.inj hsame, hname]
      exact notMem_computationName (by decide) k
  | closing => exact isFilled_of_notMem (by decide)

end Texts

-- In one walk the requests are named in the order in which they are made, without a gap, and the
-- names do not run out. All that is said under a name is what the tables say, and the walk leaves
-- no text in which a name is missing.
theorem walkFrom_requests_numbered (settings : Settings) (p : Program) (f : Function)
    (root : f.RegionIx) (shared : Shared FactTable) (hfew : f.regions.size < UInt32.size) :
    let after := ((job settings p f).walkFrom root).after { toShared := shared }
    ∃ (run : List Event) (requests : List (Target × Option Extraction)),
      after.events.toList = shared.events.toList ++ run ∧
      run.filter Event.isRequest = requests.mapIdx (fun k (target, result) =>
        .extracted target { computation := "AI" ++ toString (k + 1), startLine := target.startLine
                            family := settings.family } result) ∧
      requests.length ≤ (f.regions.nesting.nest root).length ∧
      (∀ k target result, requests[k]? = some (target, result) →
        Option.Rel (fun fact extraction => fact.Fills ("AI" ++ toString (k + 1)) extraction)
          (shared.state.factFor f target) result) ∧
      ∀ line, (∃ pieces : List (List Char),
          (after.annotations.textAt line).toList = pieces.flatten ∧
          ∀ piece ∈ pieces, (job settings p f).Written run line piece) ∧
        ¬ExtractionFact.placeholder <:+: (after.annotations.textAt line).toList := by
  intro after
  have hstart : Numbered settings f shared.state shared.events.toList 0 { toShared := shared } :=
    ⟨rfl, [], [], by simp, rfl, rfl, le_rfl⟩
  have hnumbered := after_of_triple (triple_numbered_walkFrom (p := p) root) hstart
  obtain ⟨run, targets, hrun, hrequests, -, hlength⟩ := hnumbered.requests
  have htraced := after_of_maintains (Job.maintains_walkFrom (j := job settings p f) root)
    (show (job settings p f).Traced shared.events.toList [] { toShared := shared } from
      ⟨[], by simp, by simp, by simp, .empty⟩)
  obtain ⟨run', hrun', -, -, hsourced⟩ := htraced
  obtain rfl : run = run' := List.append_cancel_left (hrun.symm.trans hrun')
  have hpieces (line : UInt32) (piece : List Char)
      (h : (job settings p f).Written run line piece) : endsLine piece ∧ IsFilled piece :=
    ⟨endsLine_of_written h, isFilled_of_written (fun _ _ _ => exists_fact_of_mem hrequests) h⟩
  have hnest := Nesting.length_nest_le (N := f.regions.nesting) root
  obtain ⟨requests, hanswers, hsame, hfills⟩ := exists_answers hrequests (by omega)
  refine ⟨run, requests, hrun, hanswers, hsame ▸ hlength, hfills, fun line => ?_⟩
  obtain ⟨pieces, htext, hwritten⟩ := hsourced line
  refine ⟨⟨pieces, htext, hwritten⟩, ?_⟩
  rw [htext]
  exact isFilled_flatten fun piece hpiece => hpieces line piece (hwritten piece hpiece)

def twoLoopsNamed : FactTable := edit twoLoopsFacts "f" fun facts =>
  { facts with
    regionExtractions := facts.regionExtractions.insert ⟨2⟩
      { comments := .ofList
          [((7 : UInt32), "in(\x7bname\x7d\x7bname\x7d)\nout(\x7bna\x7bname\x7dme\x7d)"), (8, "")]
        restrict := true } }

-- A number goes to the form that is asked for in vain, and what is left around a name once it is
-- filled in does not become a placeholder.
theorem twoLoops_named :
    let walk := ((job { coalesce := true } ⟨[twoLoops], by decide⟩ twoLoops).walkFrom
      twoLoops.regions.top).after { state := twoLoopsNamed }
    let comments : Annotations := .ofList [(7, "in(AI2AI2)\nout(\x7bnaAI2me\x7d)\n")]
    let asked : List Event :=
      [.extracted (.region ⟨3⟩ ⟨5, 6⟩) { computation := "AI1", startLine := 5, family := .acc }
          none,
        .extracted (.region ⟨2⟩ ⟨7, 9⟩) { computation := "AI2", startLine := 7, family := .acc }
          (some { comments, restrict := true, guard := "" })]
    walk.events.toList.filter Event.isRequest = asked ∧
      walk.annotations = .ofList
        [(7, "in(AI2AI2)\nout(\x7bnaAI2me\x7d)\n#pragma acc kernels if(!RST_AI2)\n"),
          (9, "\x7d\n")] ∧
      ∃ requests : List (Target × Option Extraction),
        requests.length = 2 ∧ requests.length ≤ 3 ∧
        (∀ k target result, requests[k]? = some (target, result) →
          Option.Rel (fun fact extraction => fact.Fills ("AI" ++ toString (k + 1)) extraction)
            (twoLoopsNamed.factFor twoLoops target) result) ∧
        ∀ line, ¬ExtractionFact.placeholder <:+: (walk.annotations.textAt line).toList := by
  intro walk comments asked
  have hasked : walk.events.toList.filter Event.isRequest = asked := by decide +kernel
  obtain ⟨run, requests, hrun, hnumbered, hlength, hfills, htexts⟩ :=
    walkFrom_requests_numbered { coalesce := true } ⟨[twoLoops], by decide⟩ twoLoops
      twoLoops.regions.top { state := twoLoopsNamed } (by decide +kernel)
  obtain rfl : walk.events.toList = run := hrun
  refine ⟨hasked, by decide +kernel, requests, ?_, ?_, hfills, fun line => (htexts line).2⟩
  · rw [← List.length_mapIdx, ← hnumbered, hasked]
    rfl
  · exact hlength.trans (by decide +kernel)

end FactTable

end LoopPragma
