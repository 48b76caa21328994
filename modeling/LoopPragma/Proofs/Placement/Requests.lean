import LoopPragma.Proofs.Placement.Gates

namespace LoopPragma

open Place

namespace FactTable

variable {settings : Settings} {p : Program} {f : Function} {t : FactTable}

-- An invariant that does not look at marks is kept by all questions.
theorem inquiry_of_marks {I : Progress FactTable → Prop}
    (hmarked : ∀ s id, I s → I { s with state := s.state.analyzeReduced f id })
    (hcounted : ∀ s counter amount, I s →
      I { s with events := s.events.push (.counted counter amount) })
    (hanalyzed : ∀ s id, I s → I { s with events := s.events.push (.analyzed id) }) :
    (job settings p f).Inquiry I where
  isComplete _ := maintains_ask_reading _
  analyzeReduced id := fun s hs => .ok (hmarked s id hs)
  reducedForm _ := fun _ hs => .ok hs
  isSafe _ := fun _ hs => .ok hs
  lines _ := maintains_ask_reading _
  isSafelyNested _ := maintains_ask_reading _
  counted counter _ _ := Triple.modify fun s hs => hcounted s counter _ hs
  analyzed id := Triple.modify fun s hs => hanalyzed s id hs

inductive Offered (settings : Settings) (f : Function) (t : FactTable) : Event → Prop
  | counted {counter amount} : Offered settings f t (.counted counter amount)
  | analyzed {id} : Offered settings f t (.analyzed id)
  | requested {id lines} (k : UInt32) : Offered settings f t (.extracted (.region id lines)
      { computation := computationName k, startLine := lines.start, family := settings.family }
      (t.extractRegion f (computationName k) id))

structure Offering (settings : Settings) (f : Function) (t : FactTable) (before : List Event)
    (s : Progress FactTable) : Prop where
  facts : s.state.unmarked = t.unmarked
  events : ∃ run, s.events.toList = before ++ run ∧ ∀ event ∈ run, Offered settings f t event

variable {before : List Event}

theorem Offering.push {s : Progress FactTable} (h : Offering settings f t before s) {event : Event}
    (hevent : Offered settings f t event) :
    Offering settings f t before { s with events := s.events.push event } where
  facts := h.facts
  events := by
    obtain ⟨run, hrun, hoffered⟩ := h.events
    refine ⟨run ++ [event], by simp [hrun], fun other hother => ?_⟩
    rcases List.mem_append.mp hother with hother | hother
    · exact hoffered other hother
    · exact List.mem_singleton.mp hother ▸ hevent

theorem ignoresWriting_offering : IgnoresWriting (Offering settings f t before) where
  counted _ _ _ _ h := h.push .counted
  annotated _ _ h := ⟨h.facts, h.events⟩
  registered _ _ h := ⟨h.facts, h.events⟩
  named _ _ h := ⟨h.facts, h.events⟩

theorem inquiry_offering : (job settings p f).Inquiry (Offering settings f t before) :=
  inquiry_of_marks (fun s id h => ⟨(unmarked_analyzeReduced s.state f id).trans h.facts, h.events⟩)
    (fun _ _ _ h => h.push .counted) fun _ _ h => h.push .analyzed

theorem maintains_offering_commitRegion (id : RegionId) (lines : LineSpan) :
    Maintains (Offering settings f t before) ((job settings p f).commitRegion id lines) := by
  apply ignoresWriting_offering.commitRegion_of_extract
  have hname : Triple (Offering settings f t before) freshName
      (fun name s => Offering settings f t before s ∧ ∃ k, computationName k = name)
      (Offering settings f t before) :=
    Triple.modifyGet fun s h => ⟨⟨h.facts, h.events⟩, _, rfl⟩
  refine Triple.bind hname fun name => Triple.of_fact fun hname => ?_
  obtain ⟨k, rfl⟩ := hname
  refine Triple.bind (triple_ask_unmarked (fun u => extractRegion_unmarked u f id _)
    fun _ h => h.facts) fun result => Triple.of_fact fun hresult => ?_
  subst hresult
  have hrecord : Maintains (Offering settings f t before)
      (record (.extracted (.region id lines)
        { computation := computationName k, startLine := lines.start, family := settings.family }
        (t.extractRegion f (computationName k) id))) :=
    Triple.modify fun _ h => h.push (.requested k)
  exact Maintains.bind hrecord fun _ => .pure _

theorem maintains_offering_offloadRegions (root : f.RegionIx) :
    Maintains (Offering settings f t before) ((job settings p f).offloadRegions root) :=
  inquiry_offering.offloadRegions (fun id lines _ => maintains_offering_commitRegion id lines) root

theorem offloadRegions_account (settings : Settings) (p : Program) (f : Function)
    (root : f.RegionIx) (shared : Shared FactTable) :
    let after := ((job settings p f).offloadRegions root).after { toShared := shared }
    ∃ run, after.events.toList = shared.events.toList ++ run ∧
      after.annotations = run.foldl (job settings p f).written ∅ ∧
      (∀ id ∈ committed run, Committable settings f shared.state id) ∧
      ∀ event ∈ run, Offered settings f shared.state event := by
  obtain ⟨run, hrun, hwritten, hcommittable⟩ := offloadRegions_run settings p f root shared
  have hstart : Offering settings f shared.state shared.events.toList { toShared := shared } :=
    ⟨rfl, [], by simp, nofun⟩
  have hoffering := after_of_maintains (maintains_offering_offloadRegions (p := p) root) hstart
  obtain ⟨run', hrun', hoffered⟩ := hoffering.events
  obtain rfl : run = run' := List.append_cancel_left (hrun.symm.trans hrun')
  exact ⟨run, hrun, hwritten, hcommittable, hoffered⟩

end FactTable

end LoopPragma
