import LoopPragma.Proofs.Annotations.Growth
import LoopPragma.Proofs.Placement.Visits

namespace LoopPragma

def Progress.put {σ : Type} (s : Progress σ) (counts : List Event)
    (marks : List (UInt32 × String)) : Progress σ :=
  { s with events := s.events ++ counts, annotations := s.annotations.addAll marks }

theorem Progress.put_nil {σ : Type} (s : Progress σ) : s.put [] [] = s := by simp [put]

theorem Progress.put_put {σ : Type} (s : Progress σ) (counts later : List Event)
    (marks more : List (UInt32 × String)) :
    (s.put counts marks).put later more = s.put (counts ++ later) (marks ++ more) := by
  have hevents : s.events ++ counts ++ later = s.events ++ (counts ++ later) := by
    apply Array.toList_inj.mp
    simp
  rw [put, put, put, hevents, Annotations.addAll_append]

@[simp] theorem Program.addRoutines_nil (p : Program) (family : Family) (routines : Routines) :
    p.addRoutines family [] routines = routines := by
  rw [addRoutines, register]
  exact ite_self _

def Event.callees (f : Function) : Event → List String
  | .extracted (.loop id _) _ (some _) =>
    match f.loop id with
    | .ok lp => f.calleesIn (f.loopBlocks lp).toList
    | .error _ => []
  | .extracted (.region id _) _ (some _) =>
    match f.region id with
    | .ok r => f.calleesIn (f.regionBlocks r).toList
    | .error _ => []
  | _ => []

namespace Job

open Place

variable {σ : Type} (j : Job σ)

def nestMarks (lp : j.function.LoopIx) (guard : String) : List (UInt32 × String) :=
  (j.parallelNest lp).map fun entry => (entry.2, j.settings.family.loopDirective guard)

def stampCounts (lp : j.function.LoopIx) : List Event :=
  (j.parallelNest lp).map fun _ => .counted .annotatedLoops 1

def kernelMarks (restriction : Option String) (lp : j.function.LoopIx) : List (UInt32 × String) :=
  match j.function.startLine lp with
  | none => []
  | some line =>
    let kernel := (j.settings.family.kernelDirective? restriction).toList.map (line, ·)
    if j.settings.emitParallel then
      if j.function.isMarkedParallel lp then kernel ++ j.nestMarks lp "" else []
    else kernel

def regionMarks (r : j.function.RegionIx) (restriction : Option String) : List (UInt32 × String) :=
  if j.function.isCoalescible j.settings r then
    (j.function.kernelLoops r).flatMap (j.kernelMarks restriction)
  else []

-- The annotations after one more event. An extraction merges its comments and adds its directives;
-- an offloaded region is closed behind them.
def written (a : Annotations) : Event → Annotations
  | .extracted (.loop id _) _ (some extraction) =>
    match j.function.loop id with
    | .ok lp => (a.merge extraction.comments).addAll
        (if j.settings.emitParallel then j.nestMarks lp extraction.guard else [])
    | .error _ => a
  | .extracted (.region id lines) request (some extraction) =>
    match j.function.region id with
    | .ok r => ((a.merge extraction.comments).addAll
        (j.regionMarks r (if extraction.restrict then some request.computation else none))).add
          lines.stop closingBrace
    | .error _ => a
  | _ => a

def registered (routines : Routines) (event : Event) : Routines :=
  j.program.addRoutines j.settings.family (event.callees j.function) routines

inductive IsSilent : Event → Prop
  | counted {counter amount} : IsSilent (.counted counter amount)
  | analyzed {region} : IsSilent (.analyzed region)
  | failed {target request} : IsSilent (.extracted target request none)

variable {j}

theorem written_of_isSilent {event : Event} (h : IsSilent event) (a : Annotations) :
    j.written a event = a := by
  cases h with
  | counted => rfl
  | analyzed => rfl
  | @failed target => cases target <;> rfl

theorem registered_of_isSilent {event : Event} (h : IsSilent event) (routines : Routines) :
    j.registered routines event = routines := by
  have hcallees : event.callees j.function = [] := by
    cases h with
    | counted => rfl
    | analyzed => rfl
    | @failed target => cases target <;> rfl
  rw [registered, hcallees, Program.addRoutines_nil]

-- A step that puts these events and directives down, whatever the state, and does nothing else.
def Puts {α : Type} (x : Place σ α) (counts : List Event) (marks : List (UInt32 × String)) : Prop :=
  ∀ s, ∃ a, x s = .ok a (s.put counts marks)

section Puts

variable {α β : Type} {x : Place σ α} {counts later : List Event}
  {marks more : List (UInt32 × String)}

theorem Puts.pure (a : α) : Puts (Pure.pure a : Place σ α) [] [] := by
  intro s
  exact ⟨a, by rw [s.put_nil]; rfl⟩

theorem Puts.bind {f : α → Place σ β} (hx : Puts x counts marks)
    (hf : ∀ a, Puts (f a) later more) : Puts (x >>= f) (counts ++ later) (marks ++ more) := by
  intro s
  obtain ⟨a, hrun⟩ := hx s
  obtain ⟨b, hrest⟩ := hf a (s.put counts marks)
  refine ⟨b, ?_⟩
  rw [bind_of_ok hrun, hrest, s.put_put]

theorem Puts.forM {f : α → Place σ PUnit} {counts : α → List Event}
    {marks : α → List (UInt32 × String)} {xs : List α}
    (h : ∀ a ∈ xs, Puts (f a) (counts a) (marks a)) :
    Puts (ForM.forM xs f) (xs.flatMap counts) (xs.flatMap marks) := by
  induction xs with
  | nil => exact .pure _
  | cons a xs ih =>
      rw [List.forM_cons, List.flatMap_cons, List.flatMap_cons]
      refine .bind (h a List.mem_cons_self) fun _ => ih ?_
      intro b hb
      exact h b (List.mem_cons_of_mem _ hb)

theorem puts_count (counter : Counter) (amount : Nat) :
    Puts (count counter amount : Place σ Unit) [.counted counter (.ofNat amount)] [] :=
  fun _ => ⟨(), rfl⟩

theorem puts_annotate (line : UInt32) (directive : String) :
    Puts (Place.annotate line directive : Place σ Unit) [] [(line, directive)] :=
  fun _ => ⟨(), rfl⟩

theorem puts_annotateNew (line : UInt32) (directive : String) :
    Puts (annotateNew line directive : Place σ Bool) [] [(line, directive)] :=
  fun _ => ⟨_, rfl⟩

theorem stampNest_eq (lp : j.function.LoopIx) (guard : String) (s : Progress σ) :
    j.stampNest lp guard s =
      .ok (j.parallelNest lp).length (s.put (j.stampCounts lp) (j.nestMarks lp guard)) := by
  have hstamp (entry : j.function.LoopIx × UInt32) : Puts
      (do
        count .annotatedLoops 1
        Place.annotate entry.2 (j.settings.family.loopDirective guard) : Place σ PUnit)
      [.counted .annotatedLoops 1] [(entry.2, j.settings.family.loopDirective guard)] :=
    .bind (puts_count _ _) fun _ => puts_annotate _ _
  obtain ⟨_, hrun⟩ := Puts.forM (fun entry (_ : entry ∈ j.parallelNest lp) => hstamp entry) s
  rw [← List.map_eq_flatMap, ← List.map_eq_flatMap] at hrun
  rw [stampNest]
  exact bind_of_ok hrun

end Puts

section Marks

structure Wrote (marks : List (UInt32 × String)) (s u : Progress σ) : Prop where
  state : u.state = s.state
  routines : u.routines = s.routines
  annotations : u.annotations = s.annotations.addAll marks
  events : ∃ counts, u.events.toList = s.events.toList ++ counts ∧ ∀ event ∈ counts, IsSilent event

theorem Wrote.refl (s : Progress σ) : Wrote [] s s where
  state := rfl
  routines := rfl
  annotations := rfl
  events := ⟨[], by simp, nofun⟩

theorem Wrote.trans {marks more : List (UInt32 × String)} {s u v : Progress σ}
    (hsu : Wrote marks s u) (huv : Wrote more u v) : Wrote (marks ++ more) s v where
  state := huv.state.trans hsu.state
  routines := huv.routines.trans hsu.routines
  annotations := by rw [huv.annotations, hsu.annotations, Annotations.addAll_append]
  events := by
    obtain ⟨counts, hcounts, hsilent⟩ := hsu.events
    obtain ⟨others, hothers, hsilent'⟩ := huv.events
    refine ⟨counts ++ others, by rw [hothers, hcounts, List.append_assoc], fun event he => ?_⟩
    rcases List.mem_append.mp he with he | he
    · exact hsilent event he
    · exact hsilent' event he

def Marks {α : Type} (x : Place σ α) (marks : List (UInt32 × String)) : Prop :=
  ∀ s, ∃ a u, x s = .ok a u ∧ Wrote marks s u

variable {α β : Type} {x : Place σ α} {marks more : List (UInt32 × String)}

theorem Marks.pure (a : α) : Marks (Pure.pure a : Place σ α) [] := fun s => ⟨a, s, rfl, .refl s⟩

theorem Marks.bind {f : α → Place σ β} (hx : Marks x marks) (hf : ∀ a, Marks (f a) more) :
    Marks (x >>= f) (marks ++ more) := by
  intro s
  obtain ⟨a, u, hrun, hwrote⟩ := hx s
  obtain ⟨b, v, hrun', hwrote'⟩ := hf a u
  refine ⟨b, v, ?_, hwrote.trans hwrote'⟩
  simp only [Bind.bind, EStateM.bind, hrun]
  exact hrun'

theorem Marks.ite {c : Prop} [Decidable c] {y : Place σ α} (hx : Marks x marks)
    (hy : Marks y more) : Marks (if c then x else y) (if c then marks else more) := by
  by_cases hc : c
  · simpa only [if_pos hc] using hx
  · simpa only [if_neg hc] using hy

theorem Marks.forM {f : α → Place σ PUnit} {marks : α → List (UInt32 × String)} {xs : List α}
    (h : ∀ a ∈ xs, Marks (f a) (marks a)) : Marks (ForM.forM xs f) (xs.flatMap marks) := by
  induction xs with
  | nil => exact .pure _
  | cons a xs ih =>
      rw [List.forM_cons, List.flatMap_cons]
      refine .bind (h a List.mem_cons_self) fun _ => ih ?_
      intro b hb
      exact h b (List.mem_cons_of_mem _ hb)

theorem Marks.of_puts {counts : List Event} (h : Puts x counts marks)
    (hsilent : ∀ event ∈ counts, IsSilent event) : Marks x marks := by
  intro s
  obtain ⟨a, hrun⟩ := h s
  exact ⟨a, _, hrun, rfl, rfl, rfl, counts, by simp [Progress.put], hsilent⟩

theorem marks_count (counter : Counter) (amount : Nat) :
    Marks (count counter amount : Place σ Unit) [] := by
  refine .of_puts (puts_count counter amount) fun event he => ?_
  rw [List.mem_singleton.mp he]
  exact .counted

theorem marks_annotate (line : UInt32) (directive : String) :
    Marks (Place.annotate line directive : Place σ Unit) [(line, directive)] :=
  .of_puts (puts_annotate line directive) nofun

theorem marks_annotateNew (line : UInt32) (directive : String) :
    Marks (annotateNew line directive : Place σ Bool) [(line, directive)] :=
  .of_puts (puts_annotateNew line directive) nofun

theorem marks_stampNest (lp : j.function.LoopIx) (guard : String) :
    Marks (j.stampNest lp guard) (j.nestMarks lp guard) := by
  have hputs : Puts (j.stampNest lp guard) (j.stampCounts lp) (j.nestMarks lp guard) :=
    fun s => ⟨_, stampNest_eq lp guard s⟩
  refine .of_puts hputs fun event he => ?_
  obtain ⟨entry, -, rfl⟩ := List.mem_map.mp he
  exact .counted

theorem marks_writeKernel (restriction : Option String) (lp : j.function.LoopIx) :
    Marks (j.writeKernel restriction lp) (j.kernelMarks restriction lp) := by
  have hstamped (new : Bool) : Marks
      (do if (← j.stampNest lp "") = 0 && new then count .annotatedLoops 1)
      (j.nestMarks lp "") := by
    have hcount (stamped : Nat) : Marks (if stamped = 0 && new then count .annotatedLoops 1
        else Pure.pure () : Place σ Unit) [] := by
      simpa using Marks.ite (c := stamped = 0 && new) (marks_count .annotatedLoops 1) (.pure ())
    simpa using Marks.bind (marks_stampNest lp "") hcount
  rw [writeKernel, kernelMarks]
  cases j.function.startLine lp with
  | none => exact .pure _
  | some line =>
      cases j.settings.family.kernelDirective? restriction with
      | none => exact .ite (.ite (.bind (.pure false) hstamped) (.pure _)) (.pure _)
      | some directive =>
          refine .ite (.ite ?_ (.pure _)) ?_
          · exact .bind (marks_annotateNew line directive) hstamped
          · exact .bind (marks_annotate line directive) fun _ => marks_count _ _

theorem marks_writeKernels (r : j.function.RegionIx) (restriction : Option String) :
    Marks (j.writeKernels r restriction) (j.regionMarks r restriction) := by
  refine .ite (.forM fun lp _ => ?_) (.pure _)
  exact .bind (marks_count _ _) fun _ => marks_writeKernel restriction lp

end Marks

section Runs

-- The events since `s` tell how the text and the routines of `u` came about.
def Replays (j : Job σ) (s u : Progress σ) : Prop :=
  ∃ run, u.events.toList = s.events.toList ++ run ∧
    u.annotations = run.foldl j.written s.annotations ∧
    u.routines = run.foldl j.registered s.routines

variable {s : Progress σ}

theorem Replays.refl (s : Progress σ) : j.Replays s s := ⟨[], by simp, rfl, rfl⟩

theorem Replays.trans {u v : Progress σ} (hsu : j.Replays s u) (huv : j.Replays u v) :
    j.Replays s v := by
  obtain ⟨run, hevents, hannotations, hroutines⟩ := hsu
  obtain ⟨more, hevents', hannotations', hroutines'⟩ := huv
  refine ⟨run ++ more, by rw [hevents', hevents, List.append_assoc], ?_, ?_⟩
  · rw [hannotations', hannotations, List.foldl_append]
  · rw [hroutines', hroutines, List.foldl_append]

-- A run that is told from its own start may follow any other.
theorem maintains_replays {α : Type} {x : Place σ α}
    (h : ∀ u, Triple (· = u) x (fun _ => j.Replays u) (j.Replays u)) :
    Maintains (j.Replays s) x :=
  fun u hu => (h u u rfl).mono (fun _ _ hv => hu.trans hv) fun _ hv => hu.trans hv

theorem foldl_written_of_isSilent {run : List Event} (h : ∀ event ∈ run, IsSilent event)
    (a : Annotations) : run.foldl j.written a = a := by
  induction run generalizing a with
  | nil => rfl
  | cons event run ih =>
      rw [List.foldl_cons, written_of_isSilent (h event List.mem_cons_self)]
      exact ih (fun e he => h e (List.mem_cons_of_mem _ he)) a

theorem foldl_registered_of_isSilent {run : List Event} (h : ∀ event ∈ run, IsSilent event)
    (routines : Routines) : run.foldl j.registered routines = routines := by
  induction run generalizing routines with
  | nil => rfl
  | cons event run ih =>
      rw [List.foldl_cons, registered_of_isSilent (h event List.mem_cons_self)]
      exact ih (fun e he => h e (List.mem_cons_of_mem _ he)) routines

theorem Replays.of_isSilent {u : Progress σ} {run : List Event}
    (hevents : u.events.toList = s.events.toList ++ run) (hrun : ∀ event ∈ run, IsSilent event)
    (hannotations : u.annotations = s.annotations) (hroutines : u.routines = s.routines) :
    j.Replays s u := by
  refine ⟨run, hevents, ?_, ?_⟩
  · rw [hannotations, foldl_written_of_isSilent hrun]
  · rw [hroutines, foldl_registered_of_isSilent hrun]

theorem maintains_replays_ask {α : Type} (q : Consult σ α) : Maintains (j.Replays s) (ask q) :=
  Triple.ask (fun _ h _ _ _ => h) fun _ h _ => h

theorem maintains_replays_record {event : Event} (h : IsSilent event) :
    Maintains (j.Replays s) (record event) := by
  refine maintains_replays fun u => Triple.modify ?_
  rintro _ rfl
  refine .of_isSilent Array.toList_push (fun e he => ?_) rfl rfl
  exact List.mem_singleton.mp he ▸ h

theorem maintains_replays_count (counter : Counter) (amount : Nat) :
    Maintains (j.Replays s) (count counter amount) :=
  maintains_replays_record .counted

-- Before an extraction leaves its event: a name is taken and the analyses are asked.
structure Untouched (s u : Progress σ) : Prop where
  events : u.events = s.events
  annotations : u.annotations = s.annotations
  routines : u.routines = s.routines

theorem Untouched.replays {u : Progress σ} (h : Untouched s u) : j.Replays s u :=
  ⟨[], by simp [h.events], h.annotations, h.routines⟩

-- After it has left its event, but nothing else yet.
structure Extracted (s : Progress σ) (event : Event) (u : Progress σ) : Prop where
  events : u.events.toList = s.events.toList ++ [event]
  annotations : u.annotations = s.annotations
  routines : u.routines = s.routines

theorem triple_replays_extract (target : Target) (s : Progress σ) :
    Triple (· = s) (j.extract target)
      (fun answer => Extracted s (.extracted target
        { computation := answer.1, startLine := target.startLine, family := j.settings.family }
        answer.2))
      (j.Replays s) := by
  have hname : Triple (· = s) freshName (fun _ => Untouched s) (j.Replays s) := by
    refine Triple.modifyGet ?_
    rintro _ rfl
    exact ⟨rfl, rfl, rfl⟩
  have hask {α : Type} (q : Consult σ α) :
      Triple (Untouched s) (ask q) (fun _ => Untouched s) (j.Replays s) :=
    Triple.ask (fun _ h _ _ _ => ⟨h.events, h.annotations, h.routines⟩) fun _ h _ =>
      Untouched.replays ⟨h.events, h.annotations, h.routines⟩
  refine Triple.bind hname fun computation => Triple.bind (hask _) fun result => ?_
  refine Triple.bind (Triple.modify fun u h => ?_) fun _ => Triple.pure fun _ h => h
  exact ⟨by simp [h.events], h.annotations, h.routines⟩

theorem Extracted.replays {event : Event} {u : Progress σ} (h : Extracted s event u)
    (hwritten : ∀ a, j.written a event = a)
    (hregistered : ∀ routines, j.registered routines event = routines) : j.Replays s u := by
  refine ⟨[event], h.events, ?_, ?_⟩
  · rw [h.annotations, List.foldl_cons, hwritten, List.foldl_nil]
  · rw [h.routines, List.foldl_cons, hregistered, List.foldl_nil]

theorem Extracted.replays_of_isSilent {event : Event} {u : Progress σ} (h : Extracted s event u)
    (hsilent : IsSilent event) : j.Replays s u :=
  h.replays (written_of_isSilent hsilent) (registered_of_isSilent hsilent)

theorem triple_replays_commit {event : Event} {blocks : List j.function.BlockIx}
    {comments : Annotations} {x : Place σ PUnit} {marks : List (UInt32 × String)}
    {fault : Progress σ → Prop} (hx : Marks x marks)
    (hwritten : ∀ a, j.written a event = (a.merge comments).addAll marks)
    (hcallees : event.callees j.function = j.function.calleesIn blocks) :
    Triple (Extracted s event) (do j.registerCallees blocks; merge comments; x)
      (fun _ => j.Replays s) fault := by
  intro u hu
  let ready : Progress σ := { u with
    routines := j.program.addRoutines j.settings.family (j.function.calleesIn blocks) u.routines
    annotations := u.annotations.merge comments }
  obtain ⟨_, v, hrun, hwrote⟩ := hx ready
  obtain ⟨counts, hcounts, hsilent⟩ := hwrote.events
  have hresult : (do j.registerCallees blocks; merge comments; x : Place σ PUnit) u = .ok ⟨⟩ v :=
    hrun
  rw [hresult]
  refine .ok ⟨event :: counts, by simp [hcounts, ready, hu.events], ?_, ?_⟩
  · rw [List.foldl_cons, foldl_written_of_isSilent hsilent, hwritten, hwrote.annotations,
      ← hu.annotations]
  · rw [List.foldl_cons, foldl_registered_of_isSilent hsilent, registered, hcallees,
      hwrote.routines, ← hu.routines]

theorem maintains_replays_commitLoop (lp : j.function.LoopIx) (startLine : UInt32) :
    Maintains (j.Replays s) (j.commitLoop lp startLine) := by
  refine maintains_replays fun u => Triple.bind (triple_replays_extract _ u) fun answer => ?_
  rcases answer with ⟨computation, _ | extraction⟩
  · exact Triple.pure fun _ h => h.replays_of_isSilent .failed
  · have hloop : j.function.loop (j.function.loopId lp) = .ok lp := j.function.loop_loopId lp
    have hmarks : Marks
        (do
          if j.settings.emitParallel then
            let _ ← j.stampNest lp extraction.guard
          else
            j.countNest .annotatedLoops lp)
        (if j.settings.emitParallel then j.nestMarks lp extraction.guard else []) := by
      refine .ite ?_ (marks_count _ _)
      simpa using Marks.bind (marks_stampNest lp extraction.guard) fun _ => .pure ()
    refine triple_replays_commit hmarks (fun a => ?_) ?_
    · simp only [written, hloop]
    · simp only [Event.callees, hloop]

theorem maintains_replays_commitRegion (id : RegionId) (lines : LineSpan) :
    Maintains (j.Replays s) (j.commitRegion id lines) := by
  refine maintains_replays fun u => Triple.bind (triple_replays_extract _ u) fun answer => ?_
  rcases answer with ⟨computation, _ | extraction⟩
  · exact Triple.pure fun _ h => h.replays_of_isSilent .failed
  · cases hregion : j.function.region id with
    | error e =>
        refine fun v hv => .error (hv.replays (fun a => ?_) fun routines => ?_)
        · simp only [written, hregion]
        · simp only [registered, Event.callees, hregion, Program.addRoutines_nil]
    | ok r =>
        let restriction := if extraction.restrict then some computation else none
        have hmarks : Marks
            (do j.writeKernels r restriction; Place.annotate lines.stop closingBrace)
            (j.regionMarks r restriction ++ [(lines.stop, closingBrace)]) :=
          .bind (marks_writeKernels r restriction) fun _ => marks_annotate _ _
        refine triple_replays_commit hmarks (fun a => ?_) ?_
        · simp only [written, hregion, Annotations.addAll_append, Annotations.addAll_singleton,
            restriction]
        · simp only [Event.callees, hregion]

theorem inquiry_replays (j : Job σ) (s : Progress σ) : j.Inquiry (j.Replays s) where
  isComplete _ := maintains_replays_ask _
  analyzeReduced _ := maintains_replays_ask _
  reducedForm _ := maintains_replays_ask _
  isSafe _ := maintains_replays_ask _
  lines _ := maintains_replays_ask _
  isSafelyNested _ := maintains_replays_ask _
  counted counter amount _ := maintains_replays_count counter amount
  analyzed _ := maintains_replays_record .analyzed

theorem maintains_replays_offloadRegions (root : j.function.RegionIx) :
    Maintains (j.Replays s) (j.offloadRegions root) :=
  (inquiry_replays j s).offloadRegions (fun id lines _ => maintains_replays_commitRegion id lines)
    root

theorem maintains_replays_annotateBody : Maintains (j.Replays s) j.annotateBody :=
  (inquiry_replays j s).annotateBody (fun id lines _ => maintains_replays_commitRegion id lines)
    maintains_replays_commitLoop

end Runs

end Job

end LoopPragma
