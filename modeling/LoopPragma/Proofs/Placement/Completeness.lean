import LoopPragma.Proofs.Annotations.Placeholders
import LoopPragma.Proofs.Placement.LoopVisits
import LoopPragma.Proofs.Placement.Stamping

namespace LoopPragma

open Annotations

namespace FactTable

variable {settings : Settings} {p : Program} {f : Function} {t : FactTable}

-- Names are not given out twice: there are fewer turns than numbers.
theorem length_turns_lt (t : FactTable) (settings : Settings) (f : Function) (root : f.RegionIx) :
    (t.turns settings f root).length < UInt32.size := by
  have hsize := f.regions.size_le
  cases hroot : t.stops settings f root with
  | true =>
      have hturns : t.turns settings f root = [root] := by
        simp [turns, Nesting.frontier, hroot]
      rw [hturns, List.length_singleton]
      decide
  | false =>
      have hnot : root ∉ t.turns settings f root := by
        intro hmem
        rw [(mem_turns_iff.mp hmem).1] at hroot
        cases hroot
      have hnodup : (root :: t.turns settings f root).Nodup :=
        List.nodup_cons.mpr ⟨hnot, (pairwise_apart_turns t settings f root).imp Nesting.Apart.ne⟩
      have hlength := Nesting.length_le_of_nodup hnodup
      rw [List.length_cons] at hlength
      omega

theorem mem_parallelNest_of_path {lp inner : f.LoopIx} (hinner : inner ∈ f.nest lp)
    (hpath : ∀ a ∈ f.loops.nesting.ancestors inner, lp ∈ f.loops.nesting.ancestors a →
      f.isParallel settings a ∧ (f.startLine a).isSome) :
    ∃ line, f.startLine inner = some line ∧
      (inner, line) ∈ (job settings p f).parallelNest lp := by
  have habove : lp ∈ f.loops.nesting.ancestors inner := Nesting.mem_nest_iff.mp hinner
  have hsome := (hpath inner (f.loops.nesting.mem_ancestors_self inner) habove).2
  obtain ⟨line, hline⟩ := Option.isSome_iff_exists.mp hsome
  have hstamped := Job.mem_stampedLoops_iff (j := job settings p f).mpr ⟨hinner, hpath⟩
  exact ⟨line, hline, Job.mem_parallelNest_iff.mpr ⟨hstamped, hline⟩⟩

-- What holds after the walk turned back at some regions, none of them passed over.
structure Marked (settings : Settings) (p : Program) (f : Function) (t : FactTable)
    (turned : List f.RegionIx) (s : Progress FactTable) : Prop where
  state : s.state = t
  computations : s.computations.toNat ≤ turned.length
  marked : ∀ r ∈ turned, ∀ lp, f.ownerLoop r = some lp → (f.startLine lp).isSome →
    ∃ k : UInt32, 1 ≤ k.toNat ∧ Stamped settings p t lp k s.annotations

theorem Marked.turn (hemit : settings.emitParallel) {turned : List f.RegionIx} {r : f.RegionIx}
    {lp : f.LoopIx} {s u : Progress FactTable} (hlp : f.ownerLoop r = some lp)
    (hfew : (turned ++ [r]).length < UInt32.size) (h : Marked settings p f t turned s)
    (hturned : TurnedBack settings p lp s u) : Marked settings p f t (turned ++ [r]) u := by
  rw [List.length_append, List.length_singleton] at hfew
  have hcomputations := h.computations
  refine ⟨hturned.state.trans h.state, ?_, ?_⟩
  · have hnext := hturned.computations
    rw [List.length_append, List.length_singleton]
    omega
  · intro q hq inner hinner hline
    rcases List.mem_append.mp hq with hq | hq
    · obtain ⟨k, hk, hmarked⟩ := h.marked q hq inner hinner hline
      exact ⟨k, hk, hmarked.mono hturned.within⟩
    · obtain rfl := List.mem_singleton.mp hq
      obtain rfl : lp = inner := Option.some.inj (hlp.symm.trans hinner)
      refine ⟨s.computations + 1, ?_, ?_⟩
      · have hlt : s.computations.toNat + 1 < UInt32.size := by omega
        have hsum : (s.computations + 1).toNat = s.computations.toNat + 1 := by
          rw [UInt32.toNat_add]
          exact Nat.mod_eq_of_lt hlt
        omega
      · exact h.state ▸ hturned.stamped (by simp [hline]) hemit

theorem markLoops_marked (p : Program) (hemit : settings.emitParallel) (root : f.RegionIx)
    (shared : Shared FactTable) :
    ∃ after, (job settings p f).markLoops root { toShared := shared } = .ok ⟨⟩ after ∧
      Marked settings p f shared.state (shared.state.turns settings f root) after := by
  have hfew := length_turns_lt shared.state settings f root
  have hstart : Marked settings p f shared.state [] { toShared := shared } :=
    ⟨rfl, Nat.zero_le _, nofun⟩
  refine markLoops_rule settings p root (fun _ _ h => h.state)
    (fun _ _ _ _ _ hlp hnext h hturned => ?_) hstart
  exact h.turn hemit hlp (hnext.length_le.trans_lt hfew) hturned

-- Where a walk over loops turns back and the extraction succeeds, the loop gets its directive, and
-- so does every loop of its nest that is parallel and has a line, if the loops between are and do.
theorem walkFrom_marks_nest (hemit : settings.emitParallel) (hmode : settings.coalesce = false)
    {shared : Shared FactTable} {r : f.RegionIx} {lp : f.LoopIx} {facts : FunctionFacts}
    {fact : ExtractionFact} (hattached : f.isDetached r = false)
    (hstops : shared.state.stops settings f r)
    (hfirst : ∀ a ∈ f.regions.nesting.ancestors r, a ≠ r →
      shared.state.stops settings f a = false)
    (hlp : f.ownerLoop r = some lp) (hline : (f.startLine lp).isSome)
    (hfacts : shared.state.factsOf f = some facts)
    (hfact : facts.loopExtractions[f.loopId lp]? = some fact) :
    ∃ after, (job settings p f).walkFrom f.regions.top { toShared := shared } = .ok ⟨⟩ after ∧
      ∃ (k : Nat) (guard : String), 1 ≤ k ∧
        Text.Replaces ExtractionFact.placeholder ("AI" ++ toString k).toList fact.guard.toList
          guard.toList ∧
        ∀ inner ∈ f.nest lp,
          (inner = lp ∨ ∀ a ∈ f.loops.nesting.ancestors inner, lp ∈ f.loops.nesting.ancestors a →
            f.isParallel settings a ∧ (f.startLine a).isSome) →
          ∃ line, f.startLine inner = some line ∧
            after.annotations.Holds line (settings.family.loopDirective guard) := by
  have hwalk : (job settings p f).walkFrom f.regions.top =
      (job settings p f).markLoops f.regions.top := by
    rw [Job.walkFrom, hmode]
    rfl
  have hturn : r ∈ shared.state.turns settings f f.regions.top :=
    mem_turns_iff.mpr ⟨hstops, f.regions.top_mem_ancestors hattached,
      fun a ha hne _ => hfirst a ha hne⟩
  obtain ⟨after, hrun, hmarked⟩ := markLoops_marked p hemit f.regions.top shared
  obtain ⟨k, hk, hnest⟩ := hmarked.marked r hturn lp hlp hline
  have hanswer : shared.state.extractLoop f (Place.computationName k) (f.loopId lp) =
      some (fact.instantiate (Place.computationName k)) := by
    simp [extractLoop, hfacts, hfact]
  have hparallel : f.isParallel settings lp := by
    simp only [stops, hlp, Option.any_some, hemit, Bool.not_true, Bool.false_or,
      Bool.and_eq_true] at hstops
    exact hstops.1.1
  rw [hwalk]
  refine ⟨after, hrun, k.toNat, _, hk, ExtractionFact.replaces_fill _ _,
    fun inner hinner hpath => ?_⟩
  have hpath' : ∀ a ∈ f.loops.nesting.ancestors inner, lp ∈ f.loops.nesting.ancestors a →
      f.isParallel settings a ∧ (f.startLine a).isSome := by
    rcases hpath with rfl | hpath
    · intro a ha hlpa
      obtain rfl := Nesting.ancestors_antisymm hlpa ha
      exact ⟨hparallel, hline⟩
    · exact hpath
  obtain ⟨line, hinnerLine, hentry⟩ := mem_parallelNest_of_path (p := p) hinner hpath'
  exact ⟨line, hinnerLine, hnest _ hanswer (inner, line) hentry⟩

-- Two parallel loops, the inner one at line 4 in the outer one at line 2.
def nestedLoopsDraft : FunctionDraft where
  name := "f"
  blocks := [{ id := ⟨0⟩ }, { id := ⟨1⟩ }, { id := ⟨2⟩ },
    { id := ⟨3⟩, tags := { parallel := true } }, { id := ⟨4⟩, tags := { parallel := true } }]
  loops := [{ id := ⟨0⟩, header := ⟨1⟩, latch := some ⟨4⟩, blocks := [⟨1⟩, ⟨2⟩, ⟨3⟩, ⟨4⟩],
              startLine := some 2 },
    { id := ⟨1⟩, header := ⟨2⟩, latch := some ⟨3⟩, blocks := [⟨2⟩, ⟨3⟩], parent := some ⟨0⟩,
      startLine := some 4 }]
  regions := [{ id := ⟨0⟩, blocks := [⟨0⟩, ⟨1⟩, ⟨2⟩, ⟨3⟩, ⟨4⟩] },
    { id := ⟨1⟩, parent := some ⟨0⟩, entering := some ⟨0⟩, blocks := [⟨1⟩, ⟨2⟩, ⟨3⟩, ⟨4⟩] }]

def nestedLoops : Function :=
  (Function.ofDraft nestedLoopsDraft).toOption.get (by decide +kernel)

def nestedLoopsFacts : FunctionFacts :=
  { loopExtractions := {(⟨0⟩, { guard := "if(!RST_\x7bname\x7d)" })} }

theorem nestedLoops_marked :
    ∃ after, (job { emitParallel := true } ⟨[nestedLoops], by decide⟩ nestedLoops).walkFrom
        nestedLoops.regions.top { state := ⟨{("f", nestedLoopsFacts)}⟩ } = .ok ⟨⟩ after ∧
      ∃ (k : Nat) (guard : String), 1 ≤ k ∧
        Text.Replaces ExtractionFact.placeholder ("AI" ++ toString k).toList
          "if(!RST_\x7bname\x7d)".toList guard.toList ∧
        ∀ line ∈ [2, 4], after.annotations.Holds line (Family.acc.loopDirective guard) := by
  let shared : Shared FactTable := { state := ⟨{("f", nestedLoopsFacts)}⟩ }
  let outer : nestedLoops.LoopIx := ⟨0, by decide +kernel⟩
  let inner : nestedLoops.LoopIx := ⟨1, by decide +kernel⟩
  let r : nestedLoops.RegionIx := ⟨1, by decide +kernel⟩
  have hattached : nestedLoops.isDetached r = false := by decide +kernel
  have hstops : shared.state.stops { emitParallel := true } nestedLoops r := by decide +kernel
  have hfirst : ∀ a ∈ nestedLoops.regions.nesting.ancestors r, a ≠ r →
      shared.state.stops { emitParallel := true } nestedLoops a = false := by decide +kernel
  have hlp : nestedLoops.ownerLoop r = some outer := by decide +kernel
  have houter : nestedLoops.startLine outer = some 2 := by decide +kernel
  have hinner : nestedLoops.startLine inner = some 4 := by decide +kernel
  have hname : nestedLoops.name = "f" := by decide +kernel
  have hfacts : shared.state.factsOf nestedLoops = some nestedLoopsFacts := by
    simp [shared, factsOf, hname]
  have hid : nestedLoops.loopId outer = ⟨0⟩ := by decide +kernel
  have hfact : nestedLoopsFacts.loopExtractions[nestedLoops.loopId outer]? =
      some { guard := "if(!RST_\x7bname\x7d)" } := by
    simp [nestedLoopsFacts, hid]
  obtain ⟨after, hrun, k, guard, hk, hguard, hmarked⟩ :=
    walkFrom_marks_nest (p := ⟨[nestedLoops], by decide⟩) rfl rfl hattached hstops hfirst hlp
      (by simp [houter]) hfacts hfact
  have hpath : ∀ a ∈ nestedLoops.loops.nesting.ancestors inner,
      outer ∈ nestedLoops.loops.nesting.ancestors a →
        nestedLoops.isParallel { emitParallel := true } a ∧ (nestedLoops.startLine a).isSome := by
    decide +kernel
  refine ⟨after, hrun, k, guard, hk, hguard, fun line hline => ?_⟩
  rcases List.mem_pair.mp hline with rfl | rfl
  · obtain ⟨line, hline, hholds⟩ := hmarked outer (by decide +kernel) (Or.inl rfl)
    obtain rfl : 2 = line := Option.some.inj (houter.symm.trans hline)
    exact hholds
  · obtain ⟨line, hline, hholds⟩ := hmarked inner (by decide +kernel) (Or.inr hpath)
    obtain rfl : 4 = line := Option.some.inj (hinner.symm.trans hline)
    exact hholds

end FactTable

end LoopPragma
