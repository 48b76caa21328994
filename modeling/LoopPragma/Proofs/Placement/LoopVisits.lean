import LoopPragma.Proofs.Annotations.Growth
import LoopPragma.Proofs.Counts.Total
import LoopPragma.Proofs.Facts.Answers
import LoopPragma.Proofs.Nesting.Frontier
import LoopPragma.Proofs.Placement.Carryover
import LoopPragma.Proofs.Placement.Credit
import LoopPragma.Proofs.Placement.Provenance

namespace LoopPragma

open Annotations Counts

-- What the visits keep of the nodes at which the walk has turned back so far, they keep of all.
theorem Triple.walk_frontier {n : Nat} (N : Nesting n) {ε σ : Type}
    {visit : Fin n → EStateM ε σ Bool} {stop : Fin n → Bool} {I : List (Fin n) → σ → Prop}
    {fault : σ → Prop} {all : List (Fin n)}
    (hgo : ∀ i done, stop i = false →
      Triple (I done) (visit i) (fun goOn s => I done s ∧ goOn = true) fault)
    (hstop : ∀ i done, stop i = true → done ++ [i] <+: all →
      Triple (I done) (visit i) (fun goOn s => I (done ++ [i]) s ∧ goOn = false) fault)
    (pending done : List (Fin n)) (hall : done ++ N.frontier stop pending = all) :
    Triple (I done) (N.walk visit pending) (fun _ => I all) fault := by
  induction pending using Nesting.walk.induct (N := N) generalizing done with
  | case1 =>
      rw [Nesting.frontier, List.append_nil] at hall
      rw [Nesting.walk, hall]
      exact .pure fun _ h => h
  | case2 i pending ihChildren ihPending =>
      rw [Nesting.walk]
      rw [Nesting.frontier] at hall
      cases hi : stop i with
      | false =>
          refine .bind (hgo i done hi) fun goOn => .of_fact fun hgoOn => ?_
          rw [hi] at hall
          subst hgoOn
          exact ihChildren done hall
      | true =>
          rw [hi, if_pos rfl] at hall
          have hnext : done ++ [i] ++ N.frontier stop pending = all := by simpa using hall
          refine .bind (hstop i done hi ⟨_, hnext⟩) fun goOn => .of_fact fun hgoOn => ?_
          subst hgoOn
          exact ihPending (done ++ [i]) hnext

def handed (events : List Event) : List LoopId :=
  events.filterMap fun
    | .extracted (.loop id _) _ _ => some id
    | _ => none

-- Steps that neither extract nor count a nest, and lose no text.
structure Steady {σ : Type} (s u : Progress σ) : Prop where
  state : u.state = s.state
  computations : u.computations = s.computations
  handed : handed u.events.toList = handed s.events.toList
  analyzable : total .analyzableLoops u.events.toList = total .analyzableLoops s.events.toList
  within : s.annotations.Within u.annotations

namespace Steady

variable {σ : Type} {s u v : Progress σ}

theorem refl (s : Progress σ) : Steady s s := ⟨rfl, rfl, rfl, rfl, .refl _⟩

theorem trans (hsu : Steady s u) (huv : Steady u v) : Steady s v where
  state := huv.state.trans hsu.state
  computations := huv.computations.trans hsu.computations
  handed := huv.handed.trans hsu.handed
  analyzable := huv.analyzable.trans hsu.analyzable
  within := hsu.within.trans huv.within

theorem counted (s : Progress σ) (counter : Counter) (amount : UInt64)
    (h : counter ≠ .analyzableLoops) :
    Steady s { s with events := s.events.push (.counted counter amount) } where
  state := rfl
  computations := rfl
  handed := by simp [LoopPragma.handed]
  analyzable := by simp [Event.amount, h]
  within := .refl _

theorem annotated (s : Progress σ) {a : Annotations} (h : s.annotations.Within a) :
    Steady s { s with annotations := a } := ⟨rfl, rfl, rfl, rfl, h⟩

end Steady

namespace FactTable

variable {settings : Settings} {p : Program} {f : Function}

-- The directives that the tables ask for on a loop, extracted under the name with number `k`, stand
-- on its whole parallel nest.
def Stamped (settings : Settings) (p : Program) (t : FactTable) {f : Function} (lp : f.LoopIx)
    (k : UInt32) (a : Annotations) : Prop :=
  ∀ extraction, t.extractLoop f (Place.computationName k) (f.loopId lp) = some extraction →
    ∀ entry ∈ (job settings p f).parallelNest lp,
      a.Holds entry.2 (settings.family.loopDirective extraction.guard)

theorem Stamped.mono {t : FactTable} {lp : f.LoopIx} {k : UInt32} {a b : Annotations}
    (h : Stamped settings p t lp k a) (hab : a.Within b) : Stamped settings p t lp k b :=
  fun extraction hextraction entry hentry => (h extraction hextraction entry hentry).mono hab

-- A loop is handed over if its id is among `ids`, and `amount` loops are counted as analyzable.
structure Turned (settings : Settings) (p : Program) {f : Function} (lp : f.LoopIx)
    (ids : List LoopId) (amount : Nat) (s u : Progress FactTable) : Prop where
  state : u.state = s.state
  computations : u.computations.toNat ≤ s.computations.toNat + 1
  handed : handed u.events.toList = handed s.events.toList ++ ids
  analyzable : total .analyzableLoops u.events.toList =
    total .analyzableLoops s.events.toList + amount
  within : s.annotations.Within u.annotations
  stamped : f.loopId lp ∈ ids → settings.emitParallel →
    Stamped settings p s.state lp (s.computations + 1) u.annotations

-- What a visit does that turns back: all of the nest is counted, and a loop without a line is not
-- handed over.
abbrev TurnedBack (settings : Settings) (p : Program) {f : Function} (lp : f.LoopIx)
    (s u : Progress FactTable) : Prop :=
  Turned settings p lp (if (f.startLine lp).isSome then [f.loopId lp] else [])
    (f.nest lp).length s u

theorem stampNest_spec (settings : Settings) (p : Program) (lp : f.LoopIx) (guard : String)
    (s : Progress FactTable) :
    ∃ stamped u, (job settings p f).stampNest lp guard s = .ok stamped u ∧ Steady s u ∧
      ∀ entry ∈ (job settings p f).parallelNest lp,
        u.annotations.Holds entry.2 (settings.family.loopDirective guard) := by
  have hstamps (entries : List (f.LoopIx × UInt32)) (s : Progress FactTable) :
      ∃ u, (entries.forM fun entry => do
          Place.count .annotatedLoops 1
          Place.annotate entry.2 (settings.family.loopDirective guard) : Place FactTable PUnit) s =
            .ok ⟨⟩ u ∧ Steady s u ∧
        ∀ entry ∈ entries, u.annotations.Holds entry.2 (settings.family.loopDirective guard) := by
    induction entries generalizing s with
    | nil => exact ⟨s, rfl, .refl s, nofun⟩
    | cons entry entries ih =>
        have hcounted := Steady.counted s .annotatedLoops 1 nofun
        have hstep := hcounted.trans (.annotated _ (within_add s.annotations entry.2
          (settings.family.loopDirective guard)))
        obtain ⟨u, hrun, hsteady, hholds⟩ := ih _
        refine ⟨u, hrun, hstep.trans hsteady, ?_⟩
        intro other hother
        rcases List.mem_cons.mp hother with rfl | hother
        · exact (holds_add _ _ (endsLine_loopDirective _ _)).mono hsteady.within
        · exact hholds other hother
  obtain ⟨u, hrun, hsteady, hholds⟩ := hstamps ((job settings p f).parallelNest lp) s
  refine ⟨((job settings p f).parallelNest lp).length, u, ?_, hsteady, hholds⟩
  have hstamp : (job settings p f).stampNest lp guard = do
      ((job settings p f).parallelNest lp).forM fun entry => do
        Place.count .annotatedLoops 1
        Place.annotate entry.2 (settings.family.loopDirective guard)
      return ((job settings p f).parallelNest lp).length := rfl
  simp only [hstamp, bind, EStateM.bind] at hrun ⊢
  rw [hrun]
  rfl

def extracted (settings : Settings) (lp : f.LoopIx) (startLine : UInt32)
    (s : Progress FactTable) : Progress FactTable :=
  let computation := Place.computationName (s.computations + 1)
  { s with
    computations := s.computations + 1
    events := s.events.push (.extracted (.loop (f.loopId lp) startLine)
      { computation, startLine, family := settings.family }
      (s.state.extractLoop f computation (f.loopId lp))) }

theorem extract_loop_eq (lp : f.LoopIx) (startLine : UInt32) (s : Progress FactTable) :
    (job settings p f).extract (.loop (f.loopId lp) startLine) s =
      .ok (Place.computationName (s.computations + 1),
        s.state.extractLoop f (Place.computationName (s.computations + 1)) (f.loopId lp))
        (extracted settings lp startLine s) := rfl

theorem Turned.of_steady {lp : f.LoopIx} {startLine : UInt32} {s u : Progress FactTable}
    (h : Steady (extracted settings lp startLine s) u)
    (hstamped : settings.emitParallel →
      Stamped settings p s.state lp (s.computations + 1) u.annotations) :
    Turned settings p lp [f.loopId lp] 0 s u where
  state := h.state
  computations := by
    rw [h.computations, extracted, UInt32.toNat_add]
    exact Nat.mod_le _ _
  handed := by simpa [extracted, LoopPragma.handed] using h.handed
  analyzable := by simpa [extracted, Event.amount] using h.analyzable
  within := h.within
  stamped := fun _ => hstamped

theorem commitLoop_spec (settings : Settings) (p : Program) (lp : f.LoopIx) (startLine : UInt32)
    (s : Progress FactTable) :
    ∃ u, (job settings p f).commitLoop lp startLine s = .ok ⟨⟩ u ∧
      Turned settings p lp [f.loopId lp] 0 s u := by
  rw [Job.commitLoop]
  simp only [bind, EStateM.bind, extract_loop_eq]
  cases hanswer : s.state.extractLoop f (Place.computationName (s.computations + 1))
      (f.loopId lp) with
  | none => exact ⟨_, rfl, .of_steady (.refl _) (by simp [Stamped, hanswer])⟩
  | some extraction =>
      let merged : Progress FactTable := { extracted settings lp startLine s with
        routines := p.addRoutines settings.family (f.calleesIn (f.loopBlocks lp).toList) s.routines
        annotations := s.annotations.merge extraction.comments }
      have hmerged : Steady (extracted settings lp startLine s) merged :=
        ⟨rfl, rfl, rfl, rfl, within_merge _ _⟩
      cases hemit : settings.emitParallel with
      | true =>
          obtain ⟨stamped, u, hrun, hsteady, hholds⟩ :=
            stampNest_spec settings p lp extraction.guard merged
          refine ⟨u, ?_, .of_steady (hmerged.trans hsteady) ?_⟩
          · show EStateM.bind ((job settings p f).stampNest lp extraction.guard) (fun _ => pure ())
              merged = _
            rw [EStateM.bind, hrun]
            rfl
          · intro _ answer heq
            obtain rfl : extraction = answer := Option.some.inj (hanswer.symm.trans heq)
            exact hholds
      | false =>
          refine ⟨_, rfl, .of_steady (hmerged.trans (.counted _ .annotatedLoops _ nofun)) ?_⟩
          simp [hemit]

theorem isEligible_eq (r : f.RegionIx) (lp : f.LoopIx) (s : Progress FactTable) :
    (job settings p f).isEligible r lp s =
      .ok ((!settings.emitParallel || f.isParallel settings lp) && s.state.isAnalyzable f lp &&
        s.state.nestsSafely f r) s := by
  have hanalyzable : Place.ask (analyses.isAnalyzable f lp) s =
      .ok (s.state.isAnalyzable f lp) s := by
    simp only [Place.ask, isAnalyzable_eq]
  have hnested : Place.ask (analyses.isSafelyNested f (f.regionId r)) s =
      .ok (s.state.nestsSafely f r) s := by
    have h : analyses.isSafelyNested f (f.regionId r) s.state =
        ofExcept (s.state.isSafelyNested f (f.regionId r)) s.state := rfl
    rw [Place.ask, h, isSafelyNested_regionId]
    rfl
  rw [Job.isEligible]
  cases hparallel : (!settings.emitParallel || f.isParallel settings lp) with
  | false =>
      have h : (settings.emitParallel && !f.isParallel settings lp) = true := by simp_all
      simp only [h, if_true, Bool.false_and]
      rfl
  | true =>
      have h : (settings.emitParallel && !f.isParallel settings lp) = false := by
        revert hparallel
        cases settings.emitParallel <;> simp
      simp only [h, Bool.false_eq_true, if_false, Bool.true_and, bind, EStateM.bind, hanalyzable]
      cases s.state.isAnalyzable f lp with
      | false => rfl
      | true => exact hnested

theorem visitLoopOf_of_not_stops {r : f.RegionIx} {s : Progress FactTable}
    (h : s.state.stops settings f r = false) :
    (job settings p f).visitLoopOf r s = .ok true s := by
  rw [Job.visitLoopOf]
  cases hlp : f.ownerLoop r with
  | none => rfl
  | some lp =>
      simp only [stops, hlp, Option.any_some] at h
      simp only [bind, EStateM.bind, isEligible_eq, h]
      rfl

theorem visitLoopOf_of_stops {r : f.RegionIx} {lp : f.LoopIx} {s : Progress FactTable}
    (h : s.state.stops settings f r) (hlp : f.ownerLoop r = some lp) :
    ∃ u, (job settings p f).visitLoopOf r s = .ok false u ∧ TurnedBack settings p lp s u := by
  let counted : Progress FactTable := { s with
    events := s.events.push (.counted .analyzableLoops (.ofNat (f.nest lp).length)) }
  have hfits : (UInt64.ofNat (f.nest lp).length).toNat = (f.nest lp).length :=
    UInt64.toNat_ofNat_of_lt' (Job.length_nest_lt (j := job settings p f) lp)
  have hcounted : total .analyzableLoops counted.events.toList =
      total .analyzableLoops s.events.toList + (f.nest lp).length := by
    simp [counted, Event.amount, hfits]
  have hhanded : LoopPragma.handed counted.events.toList = LoopPragma.handed s.events.toList := by
    simp [counted, LoopPragma.handed]
  simp only [stops, hlp, Option.any_some] at h
  rw [Job.visitLoopOf]
  simp only [hlp, bind, EStateM.bind, isEligible_eq, h]
  cases hline : f.startLine lp with
  | none =>
      exact ⟨counted, rfl, {
        state := rfl
        computations := by simp [counted]
        handed := by simpa [hline] using hhanded
        analyzable := hcounted
        within := .refl _
        stamped := by simp [hline] }⟩
  | some startLine =>
      obtain ⟨u, hrun, hturned⟩ := commitLoop_spec settings p lp startLine counted
      refine ⟨u, ?_, ?_⟩
      · show EStateM.bind ((job settings p f).commitLoop lp startLine) (fun _ => pure false)
          counted = _
        rw [EStateM.bind, hrun]
        rfl
      · exact { hturned with
          handed := by
            rw [hturned.handed, hhanded, hline]
            rfl
          analyzable := by rw [hturned.analyzable, hcounted, Nat.add_zero]
          stamped := fun _ => hturned.stamped List.mem_cons_self }

-- The regions at which a walk turns back, in the order in which it comes to them.
def turns (t : FactTable) (settings : Settings) (f : Function) (root : f.RegionIx) :
    List f.RegionIx :=
  f.regions.nesting.frontier (t.stops settings f) [root]

theorem mem_turns_iff {t : FactTable} {root r : f.RegionIx} :
    r ∈ t.turns settings f root ↔ t.stops settings f r ∧ root ∈ f.regions.nesting.ancestors r ∧
      ∀ a ∈ f.regions.nesting.ancestors r, a ≠ r → root ∈ f.regions.nesting.ancestors a →
        t.stops settings f a = false := by
  rw [turns, Nesting.mem_frontier_iff, Nesting.reached_singleton, Nesting.Leads]
  simp only [Bool.not_eq_true']

theorem pairwise_apart_turns (t : FactTable) (settings : Settings) (f : Function)
    (root : f.RegionIx) :
    (t.turns settings f root).Pairwise (Nesting.Apart (N := f.regions.nesting)) :=
  Nesting.pairwise_apart_frontier (List.pairwise_singleton _ root)

-- What holds at first and whenever the walk has turned back once more holds in the end.
theorem markLoops_rule (settings : Settings) (p : Program) (root : f.RegionIx) {t : FactTable}
    {I : List f.RegionIx → Progress FactTable → Prop}
    (hstate : ∀ turned s, I turned s → s.state = t)
    (hturn : ∀ turned r lp s u, f.ownerLoop r = some lp →
      turned ++ [r] <+: t.turns settings f root → I turned s → TurnedBack settings p lp s u →
      I (turned ++ [r]) u)
    {s : Progress FactTable} (hs : I [] s) :
    ∃ u, (job settings p f).markLoops root s = .ok ⟨⟩ u ∧ I (t.turns settings f root) u := by
  have hgo (r : f.RegionIx) (turned : List f.RegionIx) (hr : t.stops settings f r = false) :
      Triple (I turned) ((job settings p f).visitLoopOf r) (fun goOn s => I turned s ∧ goOn = true)
        fun _ => False := by
    intro s hs
    rw [← hstate turned s hs] at hr
    rw [visitLoopOf_of_not_stops hr]
    exact .ok ⟨hs, rfl⟩
  have hback (r : f.RegionIx) (turned : List f.RegionIx) (hr : t.stops settings f r)
      (hnext : turned ++ [r] <+: t.turns settings f root) :
      Triple (I turned) ((job settings p f).visitLoopOf r)
        (fun goOn s => I (turned ++ [r]) s ∧ goOn = false) fun _ => False := by
    intro s hs
    obtain ⟨lp, hlp, -⟩ : ∃ lp, f.ownerLoop r = some lp ∧ _ := by
      simpa [stops, Option.any_eq_true] using hr
    rw [← hstate turned s hs] at hr
    obtain ⟨u, hrun, hturned⟩ := visitLoopOf_of_stops (p := p) hr hlp
    rw [hrun]
    exact .ok ⟨hturn turned r lp s u hlp hnext hs hturned, rfl⟩
  have hwalk := Triple.walk_frontier f.regions.nesting hgo hback [root] [] (List.nil_append _)
  obtain ⟨_, u, hrun, hu⟩ := hwalk.exists_ok hs
  exact ⟨u, hrun, hu⟩

end FactTable

end LoopPragma
