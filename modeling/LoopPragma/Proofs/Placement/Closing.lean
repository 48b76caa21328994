import LoopPragma.Proofs.Annotations.Braces
import LoopPragma.Proofs.Placement.Requests

namespace LoopPragma

open Annotations Place

def closedAt (events : List Event) : List UInt32 :=
  events.filterMap fun
    | .extracted (.region _ lines) _ (some _) => some lines.stop
    | _ => none

@[simp] theorem closedAt_append (before after : List Event) :
    closedAt (before ++ after) = closedAt before ++ closedAt after := List.filterMap_append

theorem length_closedAt (events : List Event) :
    (closedAt events).length = (committed events).length := by
  induction events with
  | nil => rfl
  | cons event events ih =>
      rcases event with _ | _ | ⟨_ | _, _, _ | _⟩ <;> simpa [closedAt, committed] using ih

theorem isBraceless_of_notMem {text : String} (h : '\x7d' ∉ text.toList) : isBraceless text := by
  rw [isBraceless_iff]
  intro hpart
  have hmem : '\x7d' ∈ terminated text.toList := hpart.subset (by decide)
  rw [terminated] at hmem
  by_cases hend : endsLine text.toList
  · rw [if_pos hend] at hmem
    exact h hmem
  · rw [if_neg hend, List.mem_append] at hmem
    exact hmem.elim h (by decide)

theorem isBraceless_loopDirective (family : Family) : isBraceless (family.loopDirective "") := by
  cases family <;> decide

theorem isBraceless_kernelDirective {family : Family} {restriction : Option String}
    (hname : ∀ name ∈ restriction, ∃ k, computationName k = name) {directive : String}
    (h : family.kernelDirective? restriction = some directive) : isBraceless directive := by
  unfold Family.kernelDirective? at h
  split at h
  · cases restriction with
    | none =>
        obtain rfl := Option.some.inj h
        decide
    | some name =>
        obtain ⟨k, rfl⟩ := hname name rfl
        obtain rfl := Option.some.inj h
        apply isBraceless_of_notMem
        have hbrace : '\x7d' ∉ (computationName k).toList := by
          intro hmem
          exact absurd (isAlphanum_of_mem_computationName hmem) (by decide)
        simp [overlapFlag, String.toList_append, hbrace]
  · cases h

section Marks

variable {σ : Type} {j : Job σ} {restriction : Option String}
  (hname : ∀ name ∈ restriction, ∃ k, computationName k = name)

include hname

theorem isBraceless_kernelMarks (lp : j.function.LoopIx) :
    ∀ mark ∈ j.kernelMarks restriction lp, isBraceless mark.2 := by
  intro mark hmark
  rw [Job.kernelMarks] at hmark
  cases hline : j.function.startLine lp with
  | none =>
      rw [hline] at hmark
      cases hmark
  | some line =>
      have hkernel (h : mark ∈ (j.settings.family.kernelDirective? restriction).toList.map
          (line, ·)) : isBraceless mark.2 := by
        obtain ⟨directive, hdirective, rfl⟩ := List.mem_map.mp h
        exact isBraceless_kernelDirective hname (Option.mem_toList.mp hdirective)
      have hnest (h : mark ∈ j.nestMarks lp "") : isBraceless mark.2 := by
        obtain ⟨entry, -, rfl⟩ := List.mem_map.mp h
        exact isBraceless_loopDirective _
      simp only [hline] at hmark
      split at hmark
      · split at hmark
        · exact (List.mem_append.mp hmark).elim hkernel hnest
        · cases hmark
      · exact hkernel hmark

theorem isBraceless_regionMarks (r : j.function.RegionIx) :
    ∀ mark ∈ j.regionMarks r restriction, isBraceless mark.2 := by
  intro mark hmark
  rw [Job.regionMarks] at hmark
  split at hmark
  · obtain ⟨lp, -, hmark⟩ := List.mem_flatMap.mp hmark
    exact isBraceless_kernelMarks hname lp mark hmark
  · cases hmark

end Marks

namespace FactTable

variable {settings : Settings} {p : Program} {f : Function} {t : FactTable}

variable (t f) in
def isBracelessAt : Bool :=
  (t.factsOf f).all fun facts => facts.regionExtractions.toList.all fun entry =>
    entry.2.comments.toList.all fun comment => isBraceless comment.2

theorem braced_comments {id : RegionId} {k : UInt32} {extraction : Extraction}
    (hfree : t.isBracelessAt f) (h : t.extractRegion f (computationName k) id = some extraction) :
    Braced [] extraction.comments := by
  obtain ⟨facts, hfacts, hfact⟩ := Option.bind_eq_some_iff.mp h
  obtain ⟨fact, hget, rfl⟩ := Option.map_eq_some_iff.mp hfact
  rw [isBracelessAt, hfacts, Option.all_some, List.all_eq_true] at hfree
  have hmem := Std.ExtTreeMap.mem_toList_iff_getElem?_eq_some.mpr hget
  exact .instantiate (List.all_eq_true.mp (hfree (id, fact) hmem)) k

theorem braced_written {event : Event} (hfree : t.isBracelessAt f)
    (hoffered : Offered settings f t event)
    (hregion : ∀ id ∈ committed [event], ∃ r, f.regionId r = id) {stops : List UInt32}
    {a : Annotations} (h : Braced stops a) :
    Braced (stops ++ closedAt [event]) ((job settings p f).written a event) := by
  cases hoffered with
  | counted => simpa [closedAt, Job.written] using h
  | analyzed => simpa [closedAt, Job.written] using h
  | @requested id lines k =>
      cases hanswer : t.extractRegion f (computationName k) id with
      | none => simpa [closedAt, Job.written] using h
      | some extraction =>
          rw [hanswer] at hregion
          obtain ⟨r, hr⟩ := hregion id List.mem_cons_self
          have hregion : f.region id = .ok r := Function.region_eq_ok_iff.mpr hr
          have hname : ∀ name ∈ (if extraction.restrict then some (computationName k) else none),
              ∃ k, computationName k = name := by
            intro name hname
            split at hname
            · exact ⟨k, Option.some.inj hname⟩
            · cases hname
          have hmerged := h.merge (braced_comments hfree hanswer)
          have hmarked := List.foldlRecOn (motive := Braced stops)
            ((job settings p f).regionMarks r
              (if extraction.restrict then some (computationName k) else none)) _ hmerged
            fun b hb mark hmark => hb.add
              (isBraceless_regionMarks (j := job settings p f) hname r mark hmark) mark.1
          simp only [Job.written, hregion]
          exact hmarked.close lines.stop

theorem braced_run {run : List Event} (hfree : t.isBracelessAt f)
    (hoffered : ∀ event ∈ run, Offered settings f t event)
    (hregion : ∀ id ∈ committed run, ∃ r, f.regionId r = id) {stops : List UInt32}
    {a : Annotations} (h : Braced stops a) :
    Braced (stops ++ closedAt run) (run.foldl (job settings p f).written a) := by
  induction run generalizing stops a with
  | nil => simpa [closedAt] using h
  | cons event run ih =>
      have hsplit : committed (event :: run) = committed [event] ++ committed run :=
        committed_append [event] run
      rw [hsplit] at hregion
      have hstep := braced_written (p := p) hfree (hoffered event List.mem_cons_self)
        (fun id hid => hregion id (List.mem_append_left _ hid)) h
      have hrun := ih (fun e he => hoffered e (List.mem_cons_of_mem _ he))
        (fun id hid => hregion id (List.mem_append_right _ hid)) hstep
      rwa [List.append_assoc, ← closedAt_append] at hrun

-- The closing braces of a run. There are as many as extractions exactly if no two of the regions
-- end at the same line.
theorem offloadRegions_closes_lines (settings : Settings) (p : Program) (f : Function)
    (root : f.RegionIx) (shared : Shared FactTable) (hfree : shared.state.isBracelessAt f) :
    let after := ((job settings p f).offloadRegions root).after { toShared := shared }
    ∃ run, after.events.toList = shared.events.toList ++ run ∧
      (∀ n, (Text.pieces (after.annotations.textAt n).toList).count closingBrace.toList =
        if n ∈ closedAt run then 1 else 0) ∧
      after.annotations.allLines.count closingBrace.toList = (closedAt run).dedup.length ∧
      (after.annotations.allLines.count closingBrace.toList = (committed run).length ↔
        (closedAt run).Nodup) := by
  intro after
  obtain ⟨run, hrun, hwritten, hcommittable, hoffered⟩ :=
    offloadRegions_account settings p f root shared
  have hregion : ∀ id ∈ committed run, ∃ r, f.regionId r = id :=
    fun id hid => (hcommittable id hid).exists_region
  have hbraced : Braced (closedAt run) after.annotations := by
    rw [hwritten]
    exact braced_run hfree hoffered hregion Braced.empty
  have hcount := hbraced.count_allLines
  refine ⟨run, hrun, fun n => ?_, hcount, ?_⟩
  · rw [(hbraced n).count]
    by_cases hn : n ∈ closedAt run <;> simp [hn]
  · rw [hcount, ← length_closedAt]
    constructor
    · intro hlength
      exact List.dedup_eq_self.mp ((List.dedup_sublist _).eq_of_length hlength)
    · intro hnodup
      rw [hnodup.dedup]

-- Two loops one after the other, each a region of its own, of which the second begins at the last
-- line of the first.
def sharedEndDraft : FunctionDraft where
  name := "f"
  blocks := [{ id := ⟨0⟩, lines := [4] }, { id := ⟨1⟩, lines := [5] }, { id := ⟨2⟩, lines := [6] },
    { id := ⟨3⟩, lines := [6] }]
  loops := [{ id := ⟨0⟩, header := ⟨1⟩, latch := some ⟨2⟩, blocks := [⟨1⟩, ⟨2⟩],
              startLine := some 5 },
    { id := ⟨1⟩, header := ⟨3⟩, latch := some ⟨3⟩, blocks := [⟨3⟩], startLine := some 6 }]
  regions := [{ id := ⟨0⟩, blocks := [⟨0⟩, ⟨1⟩, ⟨2⟩, ⟨3⟩] },
    { id := ⟨1⟩, parent := some ⟨0⟩, entering := some ⟨0⟩, blocks := [⟨1⟩, ⟨2⟩] },
    { id := ⟨2⟩, parent := some ⟨0⟩, entering := some ⟨2⟩, blocks := [⟨3⟩] }]

def sharedEnd : Function :=
  (Function.ofDraft sharedEndDraft).toOption.get (by decide +kernel)

def sharedEndFacts : FactTable := edit {} "f" fun facts =>
  let first : Std.ExtTreeMap UInt32 String := {(5, "#pragma acc data copy(a)\n\x7b\n")}
  let second : Std.ExtTreeMap UInt32 String := {(6, "#pragma acc data copy(b)\n\x7b\n")}
  { facts with
    incomplete := {⟨0⟩}
    regionExtractions := (facts.regionExtractions.insert ⟨1⟩ { comments := first }).insert ⟨2⟩
      { comments := second } }

theorem sharedEnd_closed_at :
    sharedEndFacts.isBracelessAt sharedEnd ∧
      let after := ((job { coalesce := true } ⟨[sharedEnd], by decide⟩ sharedEnd).offloadRegions
        sharedEnd.regions.top).after { state := sharedEndFacts }
      ∀ n, (Text.pieces (after.annotations.textAt n).toList).count closingBrace.toList =
        if n ∈ [7, 7] then 1 else 0 := by
  have hfree : sharedEndFacts.isBracelessAt sharedEnd := by decide +kernel
  refine ⟨hfree, fun n => ?_⟩
  have hclosed : closedAt (((job { coalesce := true } ⟨[sharedEnd], by decide⟩
      sharedEnd).offloadRegions sharedEnd.regions.top).after
        { state := sharedEndFacts }).events.toList = [7, 7] := by decide +kernel
  obtain ⟨run, hrun, hcount, -⟩ := offloadRegions_closes_lines { coalesce := true }
    ⟨[sharedEnd], by decide⟩ sharedEnd sharedEnd.regions.top { state := sharedEndFacts } hfree
  have hevents : ([] : List Event) ++ run = run := List.nil_append run
  rw [hrun, hevents] at hclosed
  rw [← hclosed]
  exact hcount n

-- Both blocks are opened, and one brace is left to close them.
theorem sharedEnd_left_open :
    let after := ((job { coalesce := true } ⟨[sharedEnd], by decide⟩ sharedEnd).offloadRegions
      sharedEnd.regions.top).after { state := sharedEndFacts }
    sharedEndFacts.isBracelessAt sharedEnd ∧ committed after.events.toList = [⟨1⟩, ⟨2⟩] ∧
      after.annotations.toList =
        [(5, "#pragma acc data copy(a)\n\x7b\n#pragma acc kernels\n"),
          (6, "#pragma acc data copy(b)\n\x7b\n#pragma acc kernels\n"), (7, "\x7d\n")] ∧
      after.annotations.allLines.count closingBrace.toList ≠
        (committed after.events.toList).length := by
  decide +kernel

end FactTable

end LoopPragma
