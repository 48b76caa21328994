import LoopPragma.Proofs.Placement.LoopVisits

namespace LoopPragma

open Counts

namespace FactTable

variable {settings : Settings} {p : Program} {f : Function} {t : FactTable}

structure HandedOver (t : FactTable) (before : List Event) (turns : List f.RegionIx)
    (s : Progress FactTable) : Prop where
  state : s.state = t
  handed : handed s.events.toList = handed before ++
    ((turns.filterMap f.ownerLoop).filter fun lp => (f.startLine lp).isSome).map f.loopId
  analyzable : total .analyzableLoops s.events.toList = total .analyzableLoops before +
    ((turns.filterMap f.ownerLoop).map fun lp => (f.nest lp).length).sum

theorem HandedOver.turn {before : List Event} {turns : List f.RegionIx} {r : f.RegionIx}
    {lp : f.LoopIx} {s u : Progress FactTable} (hlp : f.ownerLoop r = some lp)
    (h : HandedOver t before turns s) (hturned : TurnedBack settings p lp s u) :
    HandedOver t before (turns ++ [r]) u where
  state := hturned.state.trans h.state
  handed := by
    rw [hturned.handed, h.handed]
    cases hline : (f.startLine lp).isSome <;> simp [hlp, hline]
  analyzable := by
    rw [hturned.analyzable, h.analyzable]
    simp [hlp, Nat.add_assoc]

-- At every region where the walk turns back, the loop that the region stands for is handed over,
-- if it has a line. Regions on different branches may stand for one loop, and each of them counts
-- its nest. Where the loops lie on different branches too, none is counted twice.
theorem markLoops_hands_owners (settings : Settings) (p : Program) (f : Function)
    (root : f.RegionIx) (shared : Shared FactTable) :
    let turns := shared.state.turns settings f root
    let loops := turns.filterMap f.ownerLoop
    turns.Pairwise (Nesting.Apart (N := f.regions.nesting)) ∧
    ∃ after, (job settings p f).markLoops root { toShared := shared } = .ok ⟨⟩ after ∧
      handed after.events.toList = handed shared.events.toList ++
        (loops.filter fun lp => (f.startLine lp).isSome).map f.loopId ∧
      total .analyzableLoops after.events.toList =
        total .analyzableLoops shared.events.toList +
          (loops.map fun lp => (f.nest lp).length).sum ∧
      (loops.Pairwise (Nesting.Apart (N := f.loops.nesting)) →
        total .analyzableLoops after.events.toList ≤
          total .analyzableLoops shared.events.toList + f.loops.size) := by
  intro turns loops
  have hstart : HandedOver shared.state shared.events.toList ([] : List f.RegionIx)
      { toShared := shared } := ⟨rfl, by simp, by simp⟩
  obtain ⟨after, hrun, h⟩ := markLoops_rule settings p root
    (fun _ _ h => h.state) (fun _ _ _ _ _ hlp _ h hturned => h.turn hlp hturned) hstart
  refine ⟨pairwise_apart_turns _ _ _ _, after, hrun, h.handed, h.analyzable, fun hapart => ?_⟩
  have hsum : (loops.map fun lp => (f.nest lp).length).sum ≤ f.loops.size :=
    Nesting.sum_length_nest_le hapart
  rw [h.analyzable]
  exact Nat.add_le_add_left hsum _

-- A loop of two blocks, each of them a region of its own.
def splitLoopDraft : FunctionDraft where
  name := "f"
  blocks := [{ id := ⟨0⟩ }, { id := ⟨1⟩ }, { id := ⟨2⟩ }]
  loops := [{ id := ⟨0⟩, header := ⟨1⟩, latch := some ⟨2⟩, blocks := [⟨1⟩, ⟨2⟩],
              startLine := some 5 }]
  regions := [{ id := ⟨0⟩, blocks := [⟨0⟩, ⟨1⟩, ⟨2⟩] },
    { id := ⟨1⟩, parent := some ⟨0⟩, entering := some ⟨0⟩, blocks := [⟨1⟩] },
    { id := ⟨2⟩, parent := some ⟨0⟩, entering := some ⟨1⟩, blocks := [⟨2⟩] }]

def splitLoop : Function :=
  (Function.ofDraft splitLoopDraft).toOption.get (by decide +kernel)

def splitLoopFacts : FactTable := edit {} "f" fun facts =>
  let comments : Std.ExtTreeMap UInt32 String := {(5, "#pragma acc data copy(a)\n")}
  { facts with loopExtractions := facts.loopExtractions.insert ⟨0⟩ { comments } }

-- So a loop can be handed over twice, and more loops counted as analyzable than there are.
theorem splitLoop_handed_twice :
    let run := ((job {} ⟨[splitLoop], by decide⟩ splitLoop).markLoops splitLoop.regions.top).after
      { state := splitLoopFacts }
    handed run.events.toList = [⟨0⟩, ⟨0⟩] ∧
      splitLoop.loops.size < (Counts.ofEvents run.events.toList).analyzableLoops.toNat := by
  decide +kernel

end FactTable

end LoopPragma
